import Bindery.Project.Settings
import Bindery.Project.SourceError
import Bindery.Text.Search
import Bindery.Toml.Reader
import Bindery.TypeScript.Identifier

/-!
# Reading settings

A settings file has the sections `input`, `output` and `types`, each of which may be missing, as may
each setting in them. Anything else is refused. A section of fixed settings may also be written as
the list of their values in order, of which those beyond the last setting do not count, and a tag's
class as an empty table under its name.
-/

namespace Bindery.Project
set_option autoImplicit false

open Schema (Primitive TagTable)

/-- The string a setting holds. -/
def stringOf : Toml → Option String
  | .string s => some s
  | _ => none

/-- The value of a key, or a default if the key is missing; none if it holds no string. -/
def stringAt (entries : Toml.Entries) (key standard : String) : Option String :=
  match entries.lookup key with
  | none => some standard
  | some value => stringOf value

/-- The entries of a section whose keys are known, none if it has others. -/
def sectionEntries (keys : List String) : Option Toml → Option Toml.Entries
  | none => some []
  | some (.table _ entries) => if entries.all (keys.contains ·.1) then some entries else none
  | some (.array _ items) => some (keys.zip items)
  | some _ => none

/-- The keys of the input section, in order. -/
def inputKeys : List String :=
  ["docs", "schemas", "suffix", "strip_prefix", "schema_suffix"]

/-- The input section. -/
def readInput (value : Option Toml) : Option InputSettings := do
  let entries ← sectionEntries inputKeys value
  let standard := InputSettings.default
  return {
    docs := ⟨← stringAt entries "docs" standard.docs.text⟩
    schemas := ⟨← stringAt entries "schemas" standard.schemas.text⟩
    suffix := ← stringAt entries "suffix" standard.suffix
    stripPrefix := ← stringAt entries "strip_prefix" standard.stripPrefix
    schemaSuffix := ← stringAt entries "schema_suffix" standard.schemaSuffix }

/-- The keys of the output section, in order. -/
def outputKeys : List String :=
  ["dir", "client_file", "client_name", "debug_dir"]

/-- The output section. -/
def readOutput (value : Option Toml) : Option OutputSettings := do
  let entries ← sectionEntries outputKeys value
  let standard := OutputSettings.default
  let debugDir : Option Path ← match entries.lookup "debug_dir" with
    | none => pure none
    | some dir => (stringOf dir).map fun dir => some ⟨dir⟩
  return {
    dir := ⟨← stringAt entries "dir" standard.dir.text⟩
    clientFile := ← stringAt entries "client_file" standard.clientFile
    clientName := ← stringAt entries "client_name" standard.clientName
    debugDir := debugDir }

/-- The class of a tag. -/
def readPrimitive : Toml → Option Primitive
  | .string name => Primitive.ofTag? name
  | .table _ [(name, .table _ [])] => Primitive.ofTag? name
  | .table _ [(name, .array _ [])] => Primitive.ofTag? name
  | _ => none

/-- The section of tags, sorted by tag. -/
def readTypes : Option Toml → Option (List (String × Primitive))
  | none => some []
  | some (.table _ entries) => do
    let types ← entries.mapM fun entry => (readPrimitive entry.2).map (entry.1, ·)
    return types.mergeSort fun a b => decide (a.1 ≤ b.1)
  | some _ => none

/-- The settings of a file, their tags not yet added to the built-in ones. -/
def readSettings (entries : Toml.Entries) : Option Settings := do
  let entries ← sectionEntries ["input", "output", "types"] (some (.table .header entries))
  return {
    input := ← readInput (entries.lookup "input")
    output := ← readOutput (entries.lookup "output")
    types := ← readTypes (entries.lookup "types")
    table := .builtin }

/-- Checks settings and adds their tags to the built-in ones. -/
def Settings.validate (s : Settings) : Except SettingsFault Settings :=
  if s.input.suffix = "" then .error .emptySuffix
  else if s.output.clientFile = "" then .error .emptyClientFile
  else if !TypeScript.isIdentifier s.output.clientName then
    .error (.invalidClientName s.output.clientName)
  else match TagTable.builtin.addAll s.types with
    | .ok table => .ok { s with table := table }
    | .error e => .error (.tag e)

/-- The settings that a text holds. -/
def parseSettings (text : String) : Except SourceError Settings :=
  match (Toml.parse? text).bind readSettings with
  | none => .error .settingsSyntax
  | some settings => settings.validate.mapError fun fault =>
      .settings fault (Text.spanOf? fault.needle text)

end Bindery.Project
