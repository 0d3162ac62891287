import Bindery.Run.Basic

/-!
# Listing commands

The commands of a project by their signatures, with nothing compiled and nothing written.
-/

namespace Bindery.Run
set_option autoImplicit false

open Manual (Entry Record)
open Project (SourceError)

/-- The stem and signature of each command, and the stems of the pages that have none. -/
structure Listing where
  entries : List (String × String)
  skipped : List String
deriving Repr, DecidableEq, Inhabited

/-- Adds a page to a listing. -/
def Listing.add (project : Project) (listing : Listing) (record : Record) : Listing :=
  match (Binding.analyze project.settings.table Manual.synopsisAbove record).command with
  | some command =>
    { listing with entries := listing.entries ++ [(command.stem, command.descriptor.signature)] }
  | none => { listing with skipped := listing.skipped ++ [record.stem] }

/-- Adds pages to a listing, unless one cannot be read. -/
def listAll (project : Project) (tree : FileTree) (listing : Listing) :
    List Entry → Except SourceError Listing
  | [] => .ok listing
  | entry :: entries =>
    match entry.read tree project.schemasDir project.settings.input with
    | .error error => .error error
    | .ok record => listAll project tree (listing.add project record) entries

/-- The commands of a project. -/
def list (project : Project) (tree : FileTree) : Except SourceError Listing := do
  listAll project tree ⟨[], []⟩ (← Manual.enumerate tree project.docsDir project.settings.input)

end Bindery.Run
