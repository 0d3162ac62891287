import Bindery.Json.Basic

/-!
# Deprecation marks

A schema node is deprecated if its `deprecated` key holds a mark that counts as true. An object
under that key is no mark: it is the schema of a property that happens to have this name.
-/

namespace Bindery.Schema
set_option autoImplicit false

/-- Whether a number is zero. -/
def isZeroNumber : Json.Number → Bool
  | .int i => i == 0
  | .real x => x.isZero

/-- Whether a value counts as true: all do except null, false, zero and the empty string. -/
def isTruthy : Json → Bool
  | .null => false
  | .bool b => b
  | .number n => !isZeroNumber n
  | .string s => s != ""
  | .array _ => true
  | .object _ => true

/-- Whether a schema node carries a deprecation mark. -/
def isDeprecated (node : Json) : Bool :=
  match node.get? "deprecated" with
  | none => false
  | some (.object _) => false
  | some mark => isTruthy mark

end Bindery.Schema
