import Bindery.Synopsis.Descriptor
import Bindery.TypeScript.Identifier

/-!
# Methods for commands

Which method of the client calls a command, and what its types are called.
-/

namespace Bindery.Binding
set_option autoImplicit false

/-- The method for a command. -/
structure Method where
  /-- The command's name as it is sent. -/
  wireName : String
  identifier : String
  request : String
  response : String
  doc : String
  /-- Whether a call must give parameters. -/
  hasRequired : Bool
deriving Repr, DecidableEq, Inhabited

/-- The method for a described command. -/
def Method.ofDescriptor (d : Synopsis.Descriptor) (doc : String) : Method :=
  { wireName := d.name
    identifier := TypeScript.methodName d.name
    request := TypeScript.requestName d.name
    response := TypeScript.responseName d.name
    doc := doc
    hasRequired := d.hasRequired }

end Bindery.Binding
