import Bindery.Run.Basic

/-!
# Runs

The files of a run are delivered in the order in which they are made, and pages are read from the
tree as it is then. A preview delivers into a list and leaves the tree as it is; a generation writes
into the tree. What was delivered before a run stops stays delivered.
-/

namespace Bindery.Run
set_option autoImplicit false

open Manual (Entry)
open Output (GeneratedFile)

/-- Where the files of a run go. -/
inductive Destination where
  /-- They are only shown. -/
  | preview
  | disk
deriving Repr, DecidableEq, Inhabited

/-- The tree of a run, and the files that were delivered. -/
structure Delivery where
  tree : FileTree
  files : List GeneratedFile

namespace Delivery

/-- Delivers a file: the delivery then, and whether it worked. -/
def put (destination : Destination) (delivery : Delivery) (file : GeneratedFile) :
    Delivery × Bool :=
  match destination with
  | .preview => ({ delivery with files := delivery.files ++ [file] }, true)
  | .disk =>
    match file.write delivery.tree with
    | (tree, .written) => (⟨tree, delivery.files ++ [file]⟩, true)
    | (tree, .kept) => (⟨tree, delivery.files⟩, true)
    | (tree, .failed) => (⟨tree, delivery.files⟩, false)

/-- Delivers files one after another, as far as that works. -/
def putAll (destination : Destination) (delivery : Delivery) : List GeneratedFile → Delivery × Bool
  | [] => (delivery, true)
  | file :: files =>
    match delivery.put destination file with
    | (delivery, true) => putAll destination delivery files
    | (delivery, false) => (delivery, false)

end Delivery

/-- What a run gives: what was delivered, and a result unless it stopped. -/
structure Outcome (α : Type) where
  delivery : Delivery
  result : Except Stop α

namespace Job

/-- Binds pages one after another. -/
def bindAll (job : Job) (destination : Destination) (progress : Progress) (delivery : Delivery) :
    List Entry → Outcome Progress
  | [] => ⟨delivery, .ok progress⟩
  | entry :: entries =>
    match job.step delivery.tree progress entry with
    | .error stop => ⟨delivery, .error stop⟩
    | .ok (progress, files) =>
      match delivery.putAll destination files with
      | (delivery, false) => ⟨delivery, .error .unwritable⟩
      | (delivery, true) => bindAll job destination progress delivery entries

/-- Delivers the client's file, which ends a run. -/
def finish (job : Job) (destination : Destination) (delivery : Delivery) (progress : Progress) :
    Outcome Summary :=
  match delivery.put destination (progress.client.file job.outputDir) with
  | (delivery, true) => ⟨delivery, .ok progress.summary⟩
  | (delivery, false) => ⟨delivery, .error .unwritable⟩

/-- Runs a job. -/
def run (job : Job) (destination : Destination) (tree : FileTree) : Outcome Summary :=
  match job.entries tree with
  | .error error => ⟨⟨tree, []⟩, .error (.source error)⟩
  | .ok entries =>
    match job.bindAll destination (.start job.project) ⟨tree, []⟩ entries with
    | ⟨delivery, .error stop⟩ => ⟨delivery, .error stop⟩
    | ⟨delivery, .ok progress⟩ => job.finish destination delivery progress

/-- Shows what a generation would write. -/
def preview (job : Job) (tree : FileTree) : Outcome Summary :=
  job.run .preview tree

/-- Writes the files of a project. -/
def generate (job : Job) (tree : FileTree) : Outcome Summary :=
  job.run .disk tree

end Job

end Bindery.Run
