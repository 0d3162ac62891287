import Bindery.FileTree
import Bindery.Json.Writer

/-!
# Generated files

A file that is to be written, and whether it may take the place of one that is there. Generated code
always does; a settings file is written once and then belongs to the user.
-/

namespace Bindery.Output
set_option autoImplicit false

/-- When a file is written. -/
inductive WriteRule where
  | always
  /-- Only if nothing is there. -/
  | once
deriving Repr, DecidableEq, Inhabited

/-- What became of a file. -/
inductive WriteResult where
  | written
  /-- Something was there. -/
  | kept
  | failed
deriving Repr, DecidableEq, Inhabited

/-- A file to be written. -/
structure GeneratedFile where
  path : Path
  content : String
  rule : WriteRule
  /-- The line that marks the file as generated, if it has one. -/
  header : Option String
deriving Repr, DecidableEq, Inhabited

/-- Writes a file: the tree then, and what became of the file. -/
def GeneratedFile.write (file : GeneratedFile) (tree : FileTree) : FileTree × WriteResult :=
  if file.rule = .once && tree.pathExists file.path then (tree, .kept)
  else
    let (tree, written) := tree.write file.path (.text file.content)
    (tree, if written then .written else .failed)

/-- The file that holds a schema in normal form. -/
def schemaFile (dir : Path) (stem : String) (schema : Json) : GeneratedFile :=
  ⟨dir.join ⟨stem ++ ".json"⟩, schema.pretty ++ "\n", .always, none⟩

end Bindery.Output
