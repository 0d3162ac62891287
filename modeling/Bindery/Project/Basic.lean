import Bindery.FileTree
import Bindery.Project.OfToml

/-!
# Projects

A project is a settings file and its settings. Paths in the settings start at the directory of the
file.
-/

namespace Bindery
set_option autoImplicit false

open Project (Settings SourceError)

/-- A settings file and what it sets. -/
structure Project where
  path : Path
  settings : Settings
deriving Repr

namespace Project

/-- The project with given settings in a directory. -/
def inDirectory (base : Path) (settings : Settings) : Project :=
  ⟨base.join ⟨settingsFileName⟩, settings⟩

instance : Inhabited Project := ⟨inDirectory ⟨""⟩ default⟩

/-- The project of a settings file. -/
def ofFile (tree : FileTree) (path : Path) : Except SourceError Project := do
  let text ← (tree.readText path).mapError (.unreadable path)
  return ⟨path, ← parseSettings text⟩

/-- The directory of the settings file. -/
def base (p : Project) : Path :=
  p.path.parent?.getD ⟨"."⟩

/-- A path of the settings, as seen from where the settings file was named. -/
def resolve (p : Project) (path : Path) : Path :=
  if path.isAbsolute then path else p.base.join path

/-- The directory of the manual pages. -/
def docsDir (p : Project) : Path := p.resolve p.settings.input.docs

/-- The directory of the type schemas. -/
def schemasDir (p : Project) : Path := p.resolve p.settings.input.schemas

/-- The directory of the generated files. -/
def outputDir (p : Project) : Path := p.resolve p.settings.output.dir

/-- The directory of the schemas in normal form, if they are written. -/
def debugDir (p : Project) : Option Path := p.settings.output.debugDir.map p.resolve

end Project

end Bindery
