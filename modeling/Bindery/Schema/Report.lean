import Bindery.Json.Pointer
import Bindery.Schema.Normalize

/-!
# What normalizing changes

For each schema: the places left out, the places whose tag becomes a number that cannot hold every
value, and how many tags are mapped. Places are pointers into the schema as it was given.
-/

namespace Bindery.Schema
set_option autoImplicit false

open Json (Pointer)

mutual

/-- The strings of a `type`, at any depth of nested lists. -/
def tagsOf : Json → List String
  | .string tag => [tag]
  | .array items => tagsOfItems items
  | _ => []
termination_by structural tags => tags

/-- `tagsOf` of every item. -/
def tagsOfItems : List Json → List String
  | [] => []
  | item :: rest => tagsOf item ++ tagsOfItems rest
termination_by structural items => items

end

/-- The tags of the table in a node's own `type`. -/
def ownTags (table : TagTable) (fields : List (String × Json)) : List Mapping :=
  match fields.lookup "type" with
  | some tags => (tagsOf tags).filterMap table.lookup
  | none => []

mutual

/-- The places left out of a node. -/
def prunedNode (place : Pointer) : Json → List Pointer
  | .array items => prunedItems place 0 items
  | .object fields => prunedFields place fields
  | _ => []
termination_by structural node => node

/-- The places left out of a list, the first item being at `position`. -/
def prunedItems (place : Pointer) (position : Nat) : List Json → List Pointer
  | [] => []
  | item :: rest =>
    (if isDeprecated item then [place.item position] else prunedNode (place.item position) item) ++
      prunedItems place (position + 1) rest
termination_by structural items => items

/-- The places left out of a node's fields. -/
def prunedFields (place : Pointer) : List (String × Json) → List Pointer
  | [] => []
  | (key, value) :: rest =>
    (if isSchemaMap key then prunedMap (place.child key) value
      else if isDeprecated value then [place.child key]
      else prunedNode (place.child key) value) ++
      prunedFields place rest
termination_by structural fields => fields

/-- The places left out of a map from names to schemas. -/
def prunedMap (place : Pointer) : Json → List Pointer
  | .object entries => prunedEntries place entries
  | .array items => prunedItems place 0 items
  | _ => []
termination_by structural value => value

/-- The places left out of a map's entries. -/
def prunedEntries (place : Pointer) : List (String × Json) → List Pointer
  | [] => []
  | (name, schema) :: rest =>
    (if isDeprecated schema then [place.child name] else prunedNode (place.child name) schema) ++
      prunedEntries place rest
termination_by structural entries => entries

end

mutual

/-- The tags mapped in what stays of a node, each with the node's place: inner nodes first. -/
def mappedNode (table : TagTable) (place : Pointer) : Json → List (Pointer × Mapping)
  | .array items => mappedItems table place 0 items
  | .object fields =>
    mappedFields table place fields ++ (ownTags table fields).map (place, ·)
  | _ => []
termination_by structural node => node

/-- The tags mapped in what stays of a list, the first item being at `position`. -/
def mappedItems (table : TagTable) (place : Pointer) (position : Nat) :
    List Json → List (Pointer × Mapping)
  | [] => []
  | item :: rest =>
    (if isDeprecated item then [] else mappedNode table (place.item position) item) ++
      mappedItems table place (position + 1) rest
termination_by structural items => items

/-- The tags mapped inside what stays of a node's fields. -/
def mappedFields (table : TagTable) (place : Pointer) :
    List (String × Json) → List (Pointer × Mapping)
  | [] => []
  | (key, value) :: rest =>
    (if isSchemaMap key then mappedInMap table (place.child key) value
      else if isDeprecated value then []
      else mappedNode table (place.child key) value) ++
      mappedFields table place rest
termination_by structural fields => fields

/-- The tags mapped in what stays of a map from names to schemas. -/
def mappedInMap (table : TagTable) (place : Pointer) : Json → List (Pointer × Mapping)
  | .object entries => mappedEntries table place entries
  | .array items => mappedItems table place 0 items
  | _ => []
termination_by structural value => value

/-- The tags mapped in what stays of a map's entries. -/
def mappedEntries (table : TagTable) (place : Pointer) :
    List (String × Json) → List (Pointer × Mapping)
  | [] => []
  | (name, schema) :: rest =>
    (if isDeprecated schema then [] else mappedNode table (place.child name) schema) ++
      mappedEntries table place rest
termination_by structural entries => entries

end

/-- What normalizing a schema changes. -/
structure Report where
  /-- The places left out. -/
  pruned : List Pointer
  /-- The places of tags that lose precision, one for each such tag. -/
  lossy : List Pointer
  /-- How many tags are mapped. -/
  mapped : Nat
deriving Repr, DecidableEq, Inhabited

/-- Whether normalizing changes nothing. -/
def Report.isUnchanged (report : Report) : Bool :=
  report.pruned.isEmpty && report.mapped == 0

/-- A schema in normal form and what was changed to reach it. -/
structure Normalized where
  schema : Json
  report : Report

/-- Brings a schema into normal form. -/
def normalize (table : TagTable) (schema : Json) : Normalized :=
  let mapped := mappedNode table [] schema
  { schema := normalNode table schema
    report := {
      pruned := prunedNode [] schema
      lossy := (mapped.filter (·.2.lossy)).map (·.1)
      mapped := mapped.length } }

end Bindery.Schema
