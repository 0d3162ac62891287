import Bindery.FileTree
import Bindery.Json.Reader
import Bindery.Manual.Page
import Bindery.Project.Settings
import Bindery.Project.SourceError

/-!
# The pages of a project

Every file of the docs directory whose name ends in the suffix is the manual page of a command, if
the directory's path with the name behind it leads to the file. The command's stem is the file's
name without suffix and prefix; no two pages may have one stem. Pages come in the order of their
file names, and each is read together with its type schema.
-/

namespace Bindery.Manual
set_option autoImplicit false

open Project (InputSettings SourceError)

/-- A page that was found but not read. -/
structure Entry where
  path : Path
  stem : String
deriving Repr, DecidableEq, Inhabited

/-- A page that was read, and its type schema. -/
structure Record where
  stem : String
  text : String
  schema : Json
  path : Path
deriving Repr, Inhabited

/-- Whether a file name is that of a page. -/
def isPageName (suffix name : String) : Bool :=
  suffix.toList.isSuffixOf name.toList

/-- The stem of a page by its file name. -/
def stemOf (suffix stripPrefix name : String) : String :=
  let cs := (Text.beforeEnd? suffix.toList name.toList).getD name.toList
  String.ofList ((Text.afterStart? stripPrefix.toList cs).getD cs)

/-- The page of a stem among pages found before, by its file name. -/
def nameOf? (stem : String) (found : List (String × String)) : Option String :=
  found.lookup stem

/-- The stems of file names with these names, in order, unless one is empty or taken. -/
def stemsOf (suffix stripPrefix : String) :
    List (String × String) → List String → Except SourceError (List (String × String))
  | found, [] => .ok found
  | found, name :: names =>
    let stem := stemOf suffix stripPrefix name
    if stem = "" then .error (.emptyStem name)
    else match nameOf? stem found with
      | some first => .error (.duplicateStem stem first name)
      | none => stemsOf suffix stripPrefix (found ++ [(stem, name)]) names

/-- Whether a name in a directory is that of a page: it ends in the suffix, and the path of the
directory with the name behind it leads to a file. -/
def isPageIn (tree : FileTree) (docs : Path) (suffix name : String) : Bool :=
  isPageName suffix name && tree.isFile (docs.join ⟨name⟩)

/-- The names of the pages among the names in a directory, sorted. -/
def pageNames (tree : FileTree) (docs : Path) (suffix : String) (names : List String) :
    List String :=
  (names.filter (isPageIn tree docs suffix)).mergeSort fun a b => decide (a ≤ b)

/-- The pages in a directory. -/
def enumerate (tree : FileTree) (docs : Path) (input : InputSettings) :
    Except SourceError (List Entry) := do
  let listed ← (tree.readDirectory docs).mapError (.unreadable docs)
  let names := pageNames tree docs input.suffix (listed.map (·.1))
  let stems ← stemsOf input.suffix input.stripPrefix [] names
  return stems.map fun e => ⟨docs.join ⟨e.2⟩, e.1⟩

/-- The schema file of a stem. -/
def schemaPath (schemas : Path) (input : InputSettings) (stem : String) : Path :=
  schemas.join ⟨stem ++ input.schemaSuffix⟩

/-- Reads a page and its schema. -/
def Entry.read (tree : FileTree) (schemas : Path) (input : InputSettings) (entry : Entry) :
    Except SourceError Record := do
  let text ← (tree.readText entry.path).mapError (.unreadable entry.path)
  let path := schemaPath schemas input entry.stem
  if !tree.isFile path then .error (.missingSchema entry.stem path)
  else
    let source ← (tree.readText path).mapError (.unreadable path)
    match Json.parse? source with
    | some schema => .ok ⟨entry.stem, text, schema, entry.path⟩
    | none => .error .schemaSyntax

end Bindery.Manual
