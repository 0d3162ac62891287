import Bindery.CommandLine.Response

/-!
# The program

Reads the files that a request may look at into a tree, meets the request there, and then does on
disk what was done in the tree.
-/

namespace Bindery.Main
set_option autoImplicit false

open CommandLine (Request)

/-- The names of a path on disk. -/
def namesOf (path : String) : Place :=
  ((Path.splitSlashes path.toList).filter Path.isReal).map String.ofList

/-- The path of a place on disk. -/
def pathOf (place : Place) : String :=
  "/" ++ "/".intercalate place

/-- What a file on disk holds. -/
def contentOf (path : String) : IO FileContent := do
  match String.fromUTF8? (← IO.FS.readBinFile path) with
  | some text => return .text text
  | none => return .binary

/-- A tree with what is on disk at a path: a file, or a directory without what is inside it. -/
def withPath (tree : FileTree) (path : Path) : IO FileTree := do
  try
    if ← (← IO.FS.realPath path.text).isDir then return (tree.makeDirectory path).1
    else return (tree.write path (← contentOf path.text)).1
  catch _ => return tree

/-- A tree with what is on disk at a path and directly inside it. -/
def withDirectory (tree : FileTree) (path : Path) : IO FileTree := do
  try
    let entries ← (← IO.FS.realPath path.text).readDir
    let tree ← withPath tree path
    entries.foldlM (fun tree entry => withPath tree (path.join ⟨entry.fileName⟩)) tree
  catch _ => withPath tree path

/-- The settings file that a request reads or writes. -/
def settingsOf : Request → Option Path
  | .generate settings .. | .check settings _ | .list settings => some settings
  | .init dir => some (CommandLine.newSettings dir).path
  | _ => none

/-- The directory of the generated files. -/
def outputOf (project : Project) : Request → Path
  | .generate _ (some output) _ => output
  | _ => project.outputDir

/-- The directories that a request may look at. -/
def directoriesOf (tree : FileTree) (request : Request) : List Path :=
  match (settingsOf request).map (Project.ofFile tree) with
  | some (.ok project) =>
    [project.docsDir, project.schemasDir, outputOf project request] ++ project.debugDir.toList
  | _ => []

/-- The tree with all that a command line may look at. -/
def load (arguments : List String) : IO FileTree := do
  let working := namesOf (← IO.currentDir).toString
  let empty : FileTree := ⟨[], []⟩
  let tree := { (empty.makeDirectory ⟨pathOf working⟩).1 with working := working }
  match CommandLine.parse arguments with
  | .error _ => return tree
  | .ok request =>
    let tree ← (settingsOf request).toList.foldlM withPath tree
    (directoriesOf tree request).foldlM withDirectory tree

/-- Does on disk what was done in a tree. -/
def store (before after : FileTree) : IO Unit := do
  for (place, entry) in after.entries do
    if before.lookup place ≠ some entry then
      match entry with
      | .directory => IO.FS.createDirAll (pathOf place)
      | .file (.text text) => IO.FS.writeFile (pathOf place) text
      | .file .binary => pure ()

end Bindery.Main

/-- Runs the command line. -/
def main (arguments : List String) : IO UInt32 := do
  let tree ← Bindery.Main.load arguments
  let response := Bindery.CommandLine.perform tree arguments
  try
    Bindery.Main.store tree response.tree
    IO.print response.output
    IO.eprint response.problems
    return response.exit.toUInt32
  catch error =>
    IO.eprintln ("error: " ++ toString error)
    return 1
