import Bindery.Proofs.Binding.Findings
import Bindery.Proofs.Manual.Corpus
import Bindery.Run.Delivery

/-!
# What becomes of a page

A page that does not stop a run leaves it by one of three exits: it gives no command, its method is
taken, or it is bound. A run that ends has taken every page through one of them, in order.
-/

namespace Bindery.Run
set_option autoImplicit false

open Binding (Command Diagnostic)
open Manual (Entry Record)
open Output (GeneratedFile)

/-- The command and the findings of a page, as a job sees them. -/
def Job.analysis (job : Job) (record : Record) : Binding.Analysis :=
  Binding.analyze job.project.settings.table Manual.synopsisAbove record

/-- How a page that was read leaves a run: how far the run is then, and the files of the page. -/
inductive Exit (job : Job) (progress : Progress) (record : Record) :
    Progress → List GeneratedFile → Prop
  | noCommand (none : (job.analysis record).command = none) :
      Exit job progress record
        (progress.skip record.stem (job.analysis record).diagnostics) []
  | methodTaken {command : Command} (some : (job.analysis record).command = some command)
      (apart : command.stem ++ ".ts" ≠ job.project.settings.output.clientFile) {existing : String}
      (conflict : progress.client.conflict? command.method = .some existing) :
      Exit job progress record
        (progress.skip command.stem
          ((job.analysis record).diagnostics ++ [methodTaken command existing])) []
  | bound {command : Command} (some : (job.analysis record).command = some command)
      (apart : command.stem ++ ".ts" ≠ job.project.settings.output.clientFile)
      (free : progress.client.conflict? command.method = none) {response : String}
      (typed : TypeScript.compile command.method.response command.schema = .ok response) :
      Exit job progress record (progress.bind command (job.analysis record).diagnostics)
        (job.commandFiles command response)

namespace Job

variable {job : Job} {tree : FileTree} {progress after : Progress} {files : List GeneratedFile}

/-- A page that does not stop the run was read, and leaves by one of the exits. -/
theorem exit_of_step {entry : Entry} (taken : job.step tree progress entry = .ok (after, files)) :
    ∃ record, entry.read tree job.project.schemasDir job.project.settings.input = .ok record ∧
      Exit job progress record after files := by
  unfold step at taken
  split at taken
  · cases taken
  · next record read =>
    refine ⟨record, read, ?_⟩
    unfold bindPage at taken
    simp only at taken
    split at taken
    · next none =>
      cases taken
      exact .noCommand none
    · next command some =>
      unfold bindCommand at taken
      simp only at taken
      split at taken
      · cases taken
      · next apart =>
        split at taken
        · next existing conflict =>
          cases taken
          exact .methodTaken some apart conflict
        · next free =>
          split at taken
          · cases taken
          · next response typed =>
            cases taken
            exact .bound some apart free typed

/-- What holds of a run and stays true from page to page holds after all pages. -/
theorem bindAll_invariant {destination : Destination}
    {motive : List Entry → Progress → Delivery → Prop}
    (step : ∀ done entry progress delivery after files delivered, motive done progress delivery →
      job.step delivery.tree progress entry = .ok (after, files) →
      delivery.putAll destination files = (delivered, true) →
      motive (done ++ [entry]) after delivered)
    {done entries : List Entry} {last : Progress} {delivery delivered : Delivery}
    (start : motive done progress delivery)
    (ran : job.bindAll destination progress delivery entries = ⟨delivered, .ok last⟩) :
    motive (done ++ entries) last delivered := by
  induction entries generalizing done progress delivery with
  | nil =>
    cases ran
    rw [List.append_nil]
    exact start
  | cons entry entries ih =>
    unfold bindAll at ran
    split at ran
    · cases ran
    · next after files taken =>
      split at ran
      · cases ran
      · next delivered' put =>
        have next := ih (step done entry _ _ _ _ _ start taken put) ran
        rw [List.append_assoc] at next
        exact next

/-- A run that ends has found its pages and bound them one after another. -/
theorem bindAll_of_run {destination : Destination} {summary : Summary}
    (done : (job.run destination tree).result = .ok summary) :
    ∃ entries progress delivery, job.entries tree = .ok entries ∧
      job.bindAll destination (.start job.project) ⟨tree, []⟩ entries =
        ⟨delivery, .ok progress⟩ ∧ progress.summary = summary := by
  unfold run at done
  split at done
  · cases done
  · next entries found =>
    split at done
    · cases done
    · next delivery progress ran =>
      refine ⟨entries, progress, delivery, found, ran, ?_⟩
      unfold finish at done
      split at done
      · cases done
        rfl
      · cases done

end Job

end Bindery.Run
