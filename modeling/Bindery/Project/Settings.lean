import Bindery.Path
import Bindery.Schema.TagTable

/-!
# Settings of a project

Where a project keeps its manual pages and type schemas, where the generated files go, and which
scalar tags it adds to the built-in ones.
-/

namespace Bindery.Project
set_option autoImplicit false

open Schema (Primitive TagTable)

/-- Where pages and schemas are, and how their files are named. -/
structure InputSettings where
  docs : Path
  schemas : Path
  /-- How the file names of pages end. -/
  suffix : String
  /-- What is left out at the start of a page's file name. -/
  stripPrefix : String
  /-- How the file names of schemas end. -/
  schemaSuffix : String
deriving Repr, DecidableEq

/-- Where the generated files go, and the names of the client's file and class. -/
structure OutputSettings where
  dir : Path
  clientFile : String
  clientName : String
  /-- Where schemas in normal form are written, if anywhere. -/
  debugDir : Option Path
deriving Repr, DecidableEq

/-- All settings. -/
structure Settings where
  input : InputSettings
  output : OutputSettings
  /-- The tags of the project, sorted. -/
  types : List (String × Primitive)
  /-- The built-in tags and those of the project. -/
  table : TagTable
deriving Repr, DecidableEq

/-- The input settings of a project that sets none. -/
def InputSettings.default : InputSettings :=
  ⟨⟨"doc"⟩, ⟨"doc/schemas"⟩, ".7.md", "lightning-", ".schema.json"⟩

/-- The output settings of a project that sets none. -/
def OutputSettings.default : OutputSettings :=
  ⟨⟨"generated"⟩, "main.ts", "RPCClient", none⟩

/-- The settings of a project that sets none. -/
def Settings.default : Settings :=
  ⟨.default, .default, [], .builtin⟩

instance : Inhabited Settings := ⟨.default⟩

/-- The name of a settings file. -/
def settingsFileName : String := "docbind.toml"

/-- The settings file of a new project. -/
def defaultText : String :=
  "[input]\n" ++
  "# Directory holding the reference documents\n" ++
  "docs = \"doc\"\n" ++
  "# Directory holding one type schema per command\n" ++
  "schemas = \"doc/schemas\"\n" ++
  "# Only files ending with this suffix are treated as reference documents\n" ++
  "suffix = \".7.md\"\n" ++
  "# Removed from the front of each document's file stem\n" ++
  "strip_prefix = \"lightning-\"\n" ++
  "# Schema file name = <command file stem><schema_suffix>\n" ++
  "schema_suffix = \".schema.json\"\n" ++
  "\n" ++
  "[output]\n" ++
  "dir = \"generated\"\n" ++
  "client_file = \"main.ts\"\n" ++
  "client_name = \"RPCClient\"\n" ++
  "# Uncomment to dump every normalized schema\n" ++
  "# debug_dir = \"debug\"\n" ++
  "\n" ++
  "# Extra scalar tags, classified as \"string\" or \"number\"\n" ++
  "[types]\n"

end Bindery.Project
