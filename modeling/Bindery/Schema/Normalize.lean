import Bindery.Schema.Deprecation
import Bindery.Schema.TagTable

/-!
# Normal form of a schema

Normalizing a schema drops its deprecated parts and maps domain tags to generic ones:

* deprecated fields, array items and properties are left out, wherever they are;
* names of deprecated properties are left out of the `required` list beside them;
* every tag of the table in a `type`, at any depth of nested lists, becomes its primitive's tag.

Some keys hold a map from names to schemas. Inside such a map a key is a name and means nothing
else, so a property called `type` or `required` is treated like any other, and the map itself is
never left out.
-/

namespace Bindery.Schema
set_option autoImplicit false

/-- Whether a key of a schema node holds a map from names to schemas. -/
def isSchemaMap (key : String) : Bool :=
  key ∈ ["properties", "patternProperties", "$defs", "definitions"]

/-- The names of the deprecated properties of a node. -/
def deprecatedNames (fields : List (String × Json)) : List String :=
  match fields.lookup "properties" with
  | some (.object properties) => (properties.filter (isDeprecated ·.2)).map (·.1)
  | _ => []

/-- A `required` list without some names. Anything but a list stays as it is. -/
def withoutNames (names : List String) : Json → Json
  | .array items => .array (items.filter fun item =>
      match item with
      | .string name => !(name ∈ names)
      | _ => true)
  | other => other

/-- A tag, or its primitive's tag if it is in the table. -/
def genericTag (table : TagTable) (tag : String) : String :=
  match table.lookup tag with
  | some mapping => mapping.primitive.tag
  | none => tag

mutual

/-- A `type` with the tags of the table replaced, at any depth of nested lists. -/
def mapTags (table : TagTable) : Json → Json
  | .string tag => .string (genericTag table tag)
  | .array items => .array (mapTagItems table items)
  | other => other
termination_by structural tags => tags

/-- `mapTags` on every item. -/
def mapTagItems (table : TagTable) : List Json → List Json
  | [] => []
  | item :: rest => mapTags table item :: mapTagItems table rest
termination_by structural items => items

end

/-- A field of a node whose parts are in normal form, brought into normal form itself. -/
def normalField (table : TagTable) (deprecated : List String) (field : String × Json) :
    String × Json :=
  if field.1 = "required" then (field.1, withoutNames deprecated field.2)
  else if field.1 = "type" then (field.1, mapTags table field.2)
  else field

mutual

/-- A schema node in normal form. -/
def normalNode (table : TagTable) : Json → Json
  | .array items => .array (normalItems table items)
  | .object fields =>
    .object ((normalFields table fields).map (normalField table (deprecatedNames fields)))
  | other => other
termination_by structural node => node

/-- The items that are not deprecated, in normal form. -/
def normalItems (table : TagTable) : List Json → List Json
  | [] => []
  | item :: rest =>
    if isDeprecated item then normalItems table rest
    else normalNode table item :: normalItems table rest
termination_by structural items => items

/-- The fields of a node that stay, with their values in normal form. -/
def normalFields (table : TagTable) : List (String × Json) → List (String × Json)
  | [] => []
  | (key, value) :: rest =>
    if isSchemaMap key then (key, normalMap table value) :: normalFields table rest
    else if isDeprecated value then normalFields table rest
    else (key, normalNode table value) :: normalFields table rest
termination_by structural fields => fields

/-- The value of a key that holds a map from names to schemas. -/
def normalMap (table : TagTable) : Json → Json
  | .object entries => .object (normalEntries table entries)
  | .array items => .array (normalItems table items)
  | other => other
termination_by structural value => value

/-- The entries of a map that are not deprecated, with their schemas in normal form. -/
def normalEntries (table : TagTable) : List (String × Json) → List (String × Json)
  | [] => []
  | (name, schema) :: rest =>
    if isDeprecated schema then normalEntries table rest
    else (name, normalNode table schema) :: normalEntries table rest
termination_by structural entries => entries

end

end Bindery.Schema
