import Bindery.Code.Fragment
import Bindery.TypeScript.Identifier

/-!
# Type expressions

TypeScript types, the union of several, and their two written forms: on one line (`inline`), and
with each field of an object type on a line of its own (`fragment`).
-/

namespace Bindery.TypeScript
set_option autoImplicit false

open Code (Fragment)
open Text (openBrace closeBrace)

/-- A field of an object type, its type aside. -/
structure FieldHead where
  name : String
  optional : Bool
  doc : Option String
deriving Repr, DecidableEq, Inhabited

/-- A type expression. -/
inductive TypeExpr where
  /-- Written as it is. -/
  | raw (text : String)
  /-- The type of one JSON value. -/
  | literal (value : Json)
  | array (element : TypeExpr)
  | union (members : List TypeExpr)
  /-- An object with these fields. Without any it is the object with no keys. -/
  | object (fields : List (FieldHead × TypeExpr))
  /-- An object whose values all have one type. -/
  | record (value : TypeExpr)
deriving Repr, Inhabited

/-- A field of an object type. -/
abbrev Field := FieldHead × TypeExpr

/-- The key of a field, with a question mark if the field may be missing. -/
def FieldHead.key (head : FieldHead) : String :=
  propertyKey head.name ++ (if head.optional then "?" else "")

namespace TypeExpr

/-- Any string. -/
def string : TypeExpr := .raw "string"

/-- Any number. -/
def number : TypeExpr := .raw "number"

/-- A truth value. -/
def boolean : TypeExpr := .raw "boolean"

/-- The null value. -/
def null : TypeExpr := .raw "null"

/-- Any value. -/
def unknown : TypeExpr := .raw "unknown"

/-- No value. -/
def never : TypeExpr := .raw "never"

mutual

/-- Whether two types are written alike, equal literals counting as one. -/
def same : TypeExpr → TypeExpr → Bool
  | .raw s, .raw t => s == t
  | .literal a, .literal b => a.same b
  | .array s, .array t => same s t
  | .union ss, .union ts => sameMembers ss ts
  | .object fs, .object gs => sameFields fs gs
  | .record s, .record t => same s t
  | _, _ => false
termination_by structural type => type

/-- Whether two lists hold alike types in the same order. -/
def sameMembers : List TypeExpr → List TypeExpr → Bool
  | [], [] => true
  | s :: ss, t :: ts => same s t && sameMembers ss ts
  | _, _ => false
termination_by structural members => members

/-- Whether two lists hold alike fields in the same order. -/
def sameFields : List (FieldHead × TypeExpr) → List (FieldHead × TypeExpr) → Bool
  | [], [] => true
  | (f, s) :: fs, (g, t) :: gs => f == g && same s t && sameFields fs gs
  | _, _ => false
termination_by structural fields => fields

end

/-- The members a type brings into a union: those of a union, else the type itself. -/
def members : TypeExpr → List TypeExpr
  | .union inner => inner
  | other => [other]

/-- Adds a type to a list unless one like it is there. -/
def insertNew (seen : List TypeExpr) (type : TypeExpr) : List TypeExpr :=
  if seen.any (·.same type) then seen else seen ++ [type]

/-- The union of types: nested unions are opened, repeated members dropped, and a single member
stands for itself. -/
def unionOf (types : List TypeExpr) : TypeExpr :=
  match (types.flatMap members).foldl insertNew [] with
  | [single] => single
  | several => .union several

/-- Whether a type is a union that needs parentheses inside an array type. -/
def isWideUnion : TypeExpr → Bool
  | .union (_ :: _ :: _) => true
  | _ => false

mutual

/-- A type on one line. -/
def inline : TypeExpr → String
  | .raw s => s
  | .literal value => value.compact
  | .array element =>
    if element.isWideUnion then "(" ++ inline element ++ ")[]" else inline element ++ "[]"
  | .union [] => "never"
  | .union members => " | ".intercalate (inlineAll members)
  | .object [] => "Record<string, never>"
  | .object fields => Text.inBraces ("; ".intercalate (signatures fields))
  | .record value => "Record<string, " ++ inline value ++ ">"
termination_by structural type => type

/-- Types on one line each. -/
def inlineAll : List TypeExpr → List String
  | [] => []
  | type :: rest => inline type :: inlineAll rest
termination_by structural types => types

/-- Fields on one line each, without semicolons. -/
def signatures : List (FieldHead × TypeExpr) → List String
  | [] => []
  | (head, type) :: rest => (head.key ++ ": " ++ inline type) :: signatures rest
termination_by structural fields => fields

end

mutual

/-- The block form of a type, if it has one: an object type with fields, or an array of a type with
a block form. -/
def block? (before after : String) : TypeExpr → Option Fragment
  | .array element => block? before ("[]" ++ after) element
  | .object (field :: rest) =>
    some (.block (before ++ openBrace) (fieldFragments (field :: rest))
      (some (closeBrace ++ after)))
  | _ => none
termination_by structural type => type

/-- Fields on lines of their own, under their doc comments. -/
def fieldFragments : List (FieldHead × TypeExpr) → List Fragment
  | [] => []
  | (head, type) :: rest =>
    Fragment.ofDoc head.doc ++
      [(block? (head.key ++ ": ") ";" type).getD
        (.line (head.key ++ ": " ++ inline type ++ ";"))] ++
      fieldFragments rest
termination_by structural fields => fields

end

/-- A type between two texts, in block form if it has one and else on one line. -/
def fragment (before after : String) (type : TypeExpr) : Fragment :=
  (block? before after type).getD (.line (before ++ type.inline ++ after))

end TypeExpr

/-- A field on one line, without a semicolon. -/
def Field.signature (field : Field) : String :=
  field.1.key ++ ": " ++ field.2.inline

end Bindery.TypeScript
