import Bindery.Json.Pointer
import Bindery.TypeScript.Declaration

/-!
# Types of schemas

The type of a schema in normal form. Of the keywords of a node the first present one of `const`,
`enum`, `oneOf`, `anyOf` and `type` decides; without any, `properties` makes an object, `items` an
array, and a node with neither is of unknown type.

The fields of an object are its properties, then the properties that only its branches (`then`,
`else`, the items of `allOf`, and their own branches) name. A field of a branch may be missing, and
one whose name is taken is not looked at.
-/

namespace Bindery.TypeScript
set_option autoImplicit false

open Json (Pointer)

/-- What keeps a schema from having a type. -/
inductive Defect where
  /-- The value is no schema node. -/
  | notANode (value : Json)
  /-- The value of this keyword must be an array. -/
  | notAnArray (keyword : String)
  /-- The value of `type` is neither a string nor an array of strings. -/
  | typeShape
  /-- The tag is no generic tag. -/
  | unknownType (tag : String)
  /-- The value of `required` is not an array of strings. -/
  | requiredShape
  /-- The value of `properties` is not an object. -/
  | propertiesShape
deriving Repr, Inhabited

/-- The defect in words. -/
def Defect.message : Defect → String
  | .notANode value => "expected a schema object, found " ++ value.kindName
  | .notAnArray keyword => "'" ++ keyword ++ "' must be an array"
  | .typeShape => "'type' must be a string or an array of strings"
  | .unknownType tag => "unknown type '" ++ tag ++ "'"
  | .requiredShape => "'required' must be an array of strings"
  | .propertiesShape => "'properties' must be an object"

/-- A defect and where in the schema it is. -/
structure Misfit where
  place : Pointer
  defect : Defect
deriving Repr, Inhabited

/-- A schema that has no type: the name its type would have, and why. -/
structure TypeError where
  typeName : String
  misfit : Misfit
deriving Repr, Inhabited

/-- The error in words. -/
def TypeError.message (e : TypeError) : String :=
  "cannot compile type '" ++ e.typeName ++ "' at '#" ++ e.misfit.place.text ++ "': " ++
    e.misfit.defect.message

/-- The description of a node: its `description`, trimmed, if that is a string or a list of strings
and not blank. -/
def description (node : Json) : Option String :=
  let text : Option String :=
    match node.get? "description" with
    | some (.string s) => some s
    | some (.array items) =>
      some ("\n".intercalate (items.filterMap fun
        | .string line => some line
        | _ => none))
    | _ => none
  match text with
  | some s => if Text.isBlankText s then none else some (Text.trimmed s)
  | none => none

/-- The names a node requires. -/
def requiredNames (place : Pointer) (fields : List (String × Json)) :
    Except Misfit (List String) :=
  match fields.lookup "required" with
  | none => .ok []
  | some (.array items) => items.mapM fun
    | .string name => .ok name
    | _ => .error ⟨place.child "required", .requiredShape⟩
  | some _ => .error ⟨place.child "required", .requiredShape⟩

/-- Whether a list of fields has one of this name. -/
def hasField (fields : List Field) (name : String) : Bool :=
  fields.any (·.1.name == name)

/-- A property that a branch declares: its place, its name and its schema. -/
structure Declared where
  place : Pointer
  name : String
  schema : Json
deriving Repr, Inhabited

/-- The properties that a list of entries declares. -/
def declaredEntries (place : Pointer) (entries : List (String × Json)) : List Declared :=
  entries.map fun entry => ⟨place.child entry.1, entry.1, entry.2⟩

/-- The properties that a branch itself declares. -/
def declaredProperties (place : Pointer) (fields : List (String × Json)) : List Declared :=
  match fields.lookup "properties" with
  | some (.object entries) => declaredEntries (place.child "properties") entries
  | _ => []

mutual

/-- All properties that a branch declares: its own, then those of its branches. -/
def declaredIn (place : Pointer) : Json → List Declared
  | .object fields =>
    declaredProperties place fields ++ declaredUnder "then" place fields ++
      declaredUnder "else" place fields ++ declaredUnderAllOf place fields
  | _ => []
termination_by structural branch => branch

/-- The properties declared by the branch at a key of a node. -/
def declaredUnder (key : String) (place : Pointer) : List (String × Json) → List Declared
  | [] => []
  | (k, branch) :: rest =>
    if k = key then declaredIn (place.child key) branch else declaredUnder key place rest
termination_by structural fields => fields

/-- The properties declared by the items of a node's `allOf`. -/
def declaredUnderAllOf (place : Pointer) : List (String × Json) → List Declared
  | [] => []
  | (k, branches) :: rest =>
    if k = "allOf" then declaredInArray (place.child "allOf") branches
    else declaredUnderAllOf place rest
termination_by structural fields => fields

/-- The properties declared by the items of an array. -/
def declaredInArray (place : Pointer) : Json → List Declared
  | .array items => declaredInItems place 0 items
  | _ => []
termination_by structural branches => branches

/-- The properties declared by branches in a list, the first being at `position`. -/
def declaredInItems (place : Pointer) (position : Nat) : List Json → List Declared
  | [] => []
  | branch :: rest =>
    declaredIn (place.item position) branch ++ declaredInItems place (position + 1) rest
termination_by structural items => items

end

/-- The properties that only the branches of a node may add to it. -/
def declaredInBranches (place : Pointer) (fields : List (String × Json)) : List Declared :=
  declaredUnder "then" place fields ++ declaredUnder "else" place fields ++
    declaredUnderAllOf place fields

/-- A way to find the types of the nodes inside a node. -/
abbrev Typing := Pointer → Json → Except Misfit TypeExpr

/-- The types of the items of a list, the first being at `position`. -/
def typesOfItems (typing : Typing) (place : Pointer) (position : Nat) :
    List Json → Except Misfit (List TypeExpr)
  | [] => .ok []
  | item :: rest => do
    let type ← typing (place.item position) item
    let types ← typesOfItems typing place (position + 1) rest
    return type :: types

/-- The fields of a node's own properties. -/
def ownFields (typing : Typing) (place : Pointer) (required : List String) :
    List (String × Json) → Except Misfit (List Field)
  | [] => .ok []
  | (name, schema) :: rest => do
    let type ← typing (place.child name) schema
    let fields ← ownFields typing place required rest
    return (⟨name, !(required.contains name), description schema⟩, type) :: fields

/-- The fields of a node's `properties`, if it has that key. -/
def propertyFields (typing : Typing) (place : Pointer) (required : List String)
    (fields : List (String × Json)) : Except Misfit (List Field) :=
  match fields.lookup "properties" with
  | some (.object entries) => ownFields typing (place.child "properties") required entries
  | some _ => .error ⟨place.child "properties", .propertiesShape⟩
  | none => .ok []

/-- Adds the fields of declared properties whose names are new. -/
def mergeDeclared (typing : Typing) (known : List Field) :
    List Declared → Except Misfit (List Field)
  | [] => .ok known
  | d :: rest =>
    if hasField known d.name then mergeDeclared typing known rest
    else do
      let type ← typing d.place d.schema
      mergeDeclared typing (known ++ [(⟨d.name, true, description d.schema⟩, type)]) rest

/-- The type of an object node without fields: the object with no keys if the node allows none or
declares `properties`, and else a record. -/
def fieldlessType (typing : Typing) (place : Pointer) (fields : List (String × Json)) :
    Except Misfit TypeExpr :=
  match fields.lookup "additionalProperties" with
  | some (.bool false) => .ok (.object [])
  | some (.object extra) =>
    .record <$> typing (place.child "additionalProperties") (.object extra)
  | _ => .ok (if (fields.lookup "properties").isSome then .object [] else .record .unknown)

/-- The type of an object node. -/
def objectType (typing : Typing) (place : Pointer) (fields : List (String × Json)) :
    Except Misfit TypeExpr := do
  let required ← requiredNames place fields
  let own ← propertyFields typing place required fields
  let all ← mergeDeclared typing own (declaredInBranches place fields)
  if all.isEmpty then fieldlessType typing place fields else .ok (.object all)

/-- The type of an array node. -/
def arrayType (typing : Typing) (place : Pointer) (fields : List (String × Json)) :
    Except Misfit TypeExpr :=
  match fields.lookup "items" with
  | none => .ok (.array .unknown)
  | some (.array items) => do
    let types ← typesOfItems typing (place.child "items") 0 items
    return .array (.unionOf types)
  | some schema => .array <$> typing (place.child "items") schema

/-- The type of a node with a given tag. -/
def tagType (typing : Typing) (place : Pointer) (fields : List (String × Json)) (tag : String) :
    Except Misfit TypeExpr :=
  if tag = "string" then .ok .string
  else if tag = "number" ∨ tag = "integer" then .ok .number
  else if tag = "boolean" then .ok .boolean
  else if tag = "null" then .ok .null
  else if tag = "object" then objectType typing place fields
  else if tag = "array" then arrayType typing place fields
  else .error ⟨place.child "type", .unknownType tag⟩

/-- The types of a node for the tags of its `type`, which must all be strings. -/
def tagTypes (typing : Typing) (place : Pointer) (fields : List (String × Json)) :
    List Json → Except Misfit (List TypeExpr)
  | [] => .ok []
  | .string tag :: rest => do
    let type ← tagType typing place fields tag
    let types ← tagTypes typing place fields rest
    return type :: types
  | _ :: _ => .error ⟨place.child "type", .typeShape⟩

/-- The type of a node by its tags, or without any by the other keywords of objects and arrays. -/
def taggedType (typing : Typing) (place : Pointer) (fields : List (String × Json)) :
    Except Misfit TypeExpr :=
  match fields.lookup "type" with
  | some (.string tag) => tagType typing place fields tag
  | some (.array tags) => TypeExpr.unionOf <$> tagTypes typing place fields tags
  | some _ => .error ⟨place.child "type", .typeShape⟩
  | none =>
    if (fields.lookup "properties").isSome then objectType typing place fields
    else if (fields.lookup "items").isSome then arrayType typing place fields
    else .ok .unknown

/-- The union of the types that a keyword lists. -/
def alternatives (typing : Typing) (place : Pointer) (keyword : String) :
    Json → Except Misfit TypeExpr
  | .array branches => TypeExpr.unionOf <$> typesOfItems typing (place.child keyword) 0 branches
  | _ => .error ⟨place.child keyword, .notAnArray keyword⟩

/-- The type of an object schema by the first of its deciding keywords. -/
def fieldsType (typing : Typing) (place : Pointer) (fields : List (String × Json)) :
    Except Misfit TypeExpr :=
  match fields.lookup "const", fields.lookup "enum", fields.lookup "oneOf",
    fields.lookup "anyOf" with
  | some value, _, _, _ => .ok (.literal value)
  | none, some (.array values), _, _ => .ok (.unionOf (values.map .literal))
  | none, some _, _, _ => .error ⟨place.child "enum", .notAnArray "enum"⟩
  | none, none, some branches, _ => alternatives typing place "oneOf" branches
  | none, none, none, some branches => alternatives typing place "anyOf" branches
  | none, none, none, none => taggedType typing place fields

/-- The type of a node, given the types of the nodes inside it. -/
def nodeType (typing : Typing) (place : Pointer) : Json → Except Misfit TypeExpr
  | .bool true => .ok .unknown
  | .bool false => .ok .never
  | .object fields => fieldsType typing place fields
  | other => .error ⟨place, .notANode other⟩

/-- The type of a node of fewer than `depth` levels. -/
def typeToDepth : Nat → Typing
  | 0 => fun place node => .error ⟨place, .notANode node⟩
  | depth + 1 => nodeType (typeToDepth depth)

/-- The type of a schema node. -/
def typeOfNode (place : Pointer) (node : Json) : Except Misfit TypeExpr :=
  typeToDepth (node.depth + 1) place node

/-- The type of a whole schema. -/
def typeOfSchema (schema : Json) : Except Misfit TypeExpr :=
  typeOfNode [] schema

/-- The declaration of a named type: an interface for an object type, an alias for any other. -/
def declare (name : String) (doc : Option String) : TypeExpr → Declaration
  | .object fields => .interface name doc fields
  | other => .typeAlias name doc other

/-- The text of the type that a schema describes, declared under a name. -/
def compile (name : String) (schema : Json) : Except TypeError String :=
  match typeOfSchema schema with
  | .ok type => .ok (declare name (description schema) type).render
  | .error misfit => .error ⟨name, misfit⟩

end Bindery.TypeScript
