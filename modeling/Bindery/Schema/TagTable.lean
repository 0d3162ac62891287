/-!
# Scalar tags

Type schemas name their scalars by domain tags such as `txid` or `msat`. A `TagTable` says which
generic JSON type each tag stands for. The built-in tags are always there; a project may add its
own, but may neither reclassify a tag nor touch a generic one.
-/

namespace Bindery.Schema
set_option autoImplicit false

/-- What a scalar tag can stand for. -/
inductive Primitive where
  | text
  | number
deriving Repr, DecidableEq, Inhabited

namespace Primitive

/-- The generic tag of a primitive. -/
def tag : Primitive → String
  | .text => "string"
  | .number => "number"

/-- The primitive with a generic tag. -/
def ofTag? (tag : String) : Option Primitive :=
  if tag = "string" then some .text else if tag = "number" then some .number else none

end Primitive

/-- What a tag is mapped to. -/
structure Mapping where
  primitive : Primitive
  /-- Whether large values lose precision. -/
  lossy : Bool
deriving Repr, DecidableEq, Inhabited

/-- Opaque values written as text. -/
def textTags : List String :=
  ["hex", "txid", "pubkey", "signature", "short_channel_id", "point32", "bip340sig"]

/-- Whole numbers that a double holds exactly. -/
def numberTags : List String :=
  ["u8", "u16", "u32", "msat"]

/-- Whole numbers beyond the exact range of a double. -/
def lossyNumberTags : List String :=
  ["u64"]

/-- The tags of JSON's own types. They are never mapped. -/
def genericTags : List String :=
  ["string", "number", "integer", "boolean", "null", "object", "array"]

/-- The tags that are mapped, in the order of their declaration. -/
structure TagTable where
  entries : List (String × Mapping)
deriving Repr, DecidableEq, Inhabited

/-- Why a tag cannot be added. -/
inductive TagError where
  | genericTag (tag : String)
  | conflict (tag : String) (present requested : Primitive)
deriving Repr, DecidableEq, Inhabited

/-- The reason in words. -/
def TagError.message : TagError → String
  | .genericTag tag => "'" ++ tag ++ "' is already a generic schema type and cannot be remapped"
  | .conflict tag present requested =>
    "'" ++ tag ++ "' is built in as '" ++ present.tag ++ "' and cannot be remapped to '" ++
      requested.tag ++ "'"

namespace TagTable

/-- The tags every project has. -/
def builtin : TagTable :=
  ⟨textTags.map (·, ⟨.text, false⟩) ++ numberTags.map (·, ⟨.number, false⟩) ++
    lossyNumberTags.map (·, ⟨.number, true⟩)⟩

/-- What a tag is mapped to, if it is in the table. -/
def lookup (table : TagTable) (tag : String) : Option Mapping :=
  table.entries.lookup tag

/-- Adds a tag. One that is there with the same primitive is left as it is. -/
def add (table : TagTable) (tag : String) (primitive : Primitive) : Except TagError TagTable :=
  if tag ∈ genericTags then .error (.genericTag tag)
  else match table.lookup tag with
    | some present =>
      if present.primitive = primitive then .ok table
      else .error (.conflict tag present.primitive primitive)
    | none => .ok ⟨table.entries ++ [(tag, ⟨primitive, false⟩)]⟩

/-- Adds tags one after another, up to the first that cannot be added. -/
def addAll (table : TagTable) (tags : List (String × Primitive)) : Except TagError TagTable :=
  tags.foldlM (fun t tag => t.add tag.1 tag.2) table

end TagTable

end Bindery.Schema
