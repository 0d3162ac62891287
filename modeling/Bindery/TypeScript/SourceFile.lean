import Bindery.TypeScript.Declaration

/-!
# Source files

A file is a comment line, groups of imports and declarations, in this order and with a blank line
between any two of these sections.
-/

namespace Bindery.TypeScript
set_option autoImplicit false

open Code (Fragment Indent Builder)

/-- The parts of a file. -/
structure SourceFile where
  header : Option String
  importGroups : List (List Import)
  /-- The code of each declaration. -/
  body : List (List Fragment)
deriving Inhabited

namespace SourceFile

/-- The file without parts. -/
def empty : SourceFile :=
  ⟨none, [], []⟩

/-- Sets the comment line. -/
def withHeader (file : SourceFile) (header : String) : SourceFile :=
  { file with header := some header }

/-- Adds an import to the last group. -/
def addImport (file : SourceFile) (statement : Import) : SourceFile :=
  match file.importGroups.getLast? with
  | some group =>
    { file with importGroups := file.importGroups.dropLast ++ [group ++ [statement]] }
  | none => { file with importGroups := [[statement]] }

/-- Adds a group of imports, unless it is empty. -/
def addImportGroup (file : SourceFile) (group : List Import) : SourceFile :=
  if group.isEmpty then file else { file with importGroups := file.importGroups ++ [group] }

/-- Adds a declaration. -/
def add (file : SourceFile) (declaration : Declaration) : SourceFile :=
  { file with body := file.body ++ [declaration.toFragments] }

/-- Adds declarations. -/
def addAll (file : SourceFile) (declarations : List Declaration) : SourceFile :=
  declarations.foldl add file

/-- Whether the file has no parts. -/
def isEmpty (file : SourceFile) : Bool :=
  file.header.isNone && file.importGroups.isEmpty && file.body.isEmpty

/-- The code of each section. -/
def sections (file : SourceFile) : List (List Fragment) :=
  file.header.toList.map (fun header => [.line header]) ++
    file.importGroups.map (fun group => group.map fun i => .line i.statement) ++ file.body

/-- Sections one after another, with a blank line between any two. -/
def joinSections : List (List Fragment) → List Fragment
  | [] => []
  | [last] => last
  | first :: rest => first ++ .blank :: joinSections rest

/-- The text of a file. -/
def renderWith (file : SourceFile) (indent : Indent) : String :=
  Code.render indent (joinSections file.sections)

/-- The text of a file with the standard indentation. -/
def render (file : SourceFile) : String :=
  file.renderWith .standard

end SourceFile

end Bindery.TypeScript
