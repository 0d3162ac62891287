import Bindery.Proofs.Manual.Pages
import Bindery.Proofs.Run.Course
import Bindery.Report.OfRun

/-!
# Runs that stop

A run stops at a page that cannot be read, whose command's file is the client's, or whose result has
no type. By then it has delivered the files of the pages before it, and these are what a run over
those pages alone delivers before the client's file.
-/

namespace Bindery.Run
set_option autoImplicit false

open Binding (Command)
open Manual (Entry Record)
open Output (GeneratedFile Reach Wrote)
open Project (SourceError)
open TypeScript (TypeError)

/-! ## Where a run stops -/

/-- Why a run stops at a page. -/
inductive Fault (job : Job) (tree : FileTree) (progress : Progress) (entry : Entry) : Stop → Prop
  | unread {error : SourceError}
      (failed : entry.read tree job.project.schemasDir job.project.settings.input = .error error) :
      Fault job tree progress entry (.source error)
  | clientOverwritten {record : Record} {command : Command}
      (read : entry.read tree job.project.schemasDir job.project.settings.input = .ok record)
      (some : (job.analysis record).command = some command)
      (same : command.stem ++ ".ts" = job.project.settings.output.clientFile) :
      Fault job tree progress entry
        (.clientOverwritten command.stem job.project.settings.output.clientFile)
  | untyped {record : Record} {command : Command} {error : TypeError}
      (read : entry.read tree job.project.schemasDir job.project.settings.input = .ok record)
      (some : (job.analysis record).command = some command)
      (apart : command.stem ++ ".ts" ≠ job.project.settings.output.clientFile)
      (free : progress.client.conflict? command.method = none)
      (failed : TypeScript.compile command.method.response command.schema = .error error) :
      Fault job tree progress entry (.type command.stem error)

namespace Job

variable {job : Job} {destination : Destination} {tree : FileTree} {progress : Progress}
  {delivery delivered : Delivery} {entries : List Entry} {stop : Stop}

/-- The stem in the message is that of the page at fault. -/
theorem stem_of_fault {entry : Entry} {stem : String} {error : TypeError}
    (fault : Fault job tree progress entry (.type stem error)) : entry.stem = stem := by
  cases fault with
  | untyped read some => rw [(Binding.errorPlaces_of_command some).1, Manual.Entry.read_stem read]

theorem fault_of_step {entry : Entry} (failed : job.step tree progress entry = .error stop) :
    Fault job tree progress entry stop := by
  unfold step at failed
  split at failed
  · next unread =>
    cases failed
    exact .unread unread
  · next record read =>
    unfold bindPage at failed
    simp only at failed
    split at failed
    · cases failed
    · next command some =>
      unfold bindCommand at failed
      simp only at failed
      split at failed
      · next same =>
        cases failed
        exact .clientOverwritten read some same
      · next apart =>
        split at failed
        · cases failed
        · next free =>
          split at failed
          · next untyped =>
            cases failed
            exact .untyped read some apart free untyped
          · cases failed

/-- Where no file is to blame, a run stops at a page, with the pages before it bound and nothing
delivered since. -/
theorem exists_fault_of_bindAll (deliverable : stop ≠ .unwritable)
    (ran : job.bindAll destination progress delivery entries = ⟨delivered, .error stop⟩) :
    ∃ done failing later reached, entries = done ++ failing :: later ∧
      job.bindAll destination progress delivery done = ⟨delivered, .ok reached⟩ ∧
      Fault job delivered.tree reached failing stop := by
  induction entries generalizing progress delivery with
  | nil => cases ran
  | cons entry entries ih =>
    unfold bindAll at ran
    split at ran
    · next failed =>
      cases ran
      exact ⟨[], entry, entries, progress, rfl, rfl, fault_of_step failed⟩
    · next after files taken =>
      split at ran
      · cases ran
        exact absurd rfl deliverable
      · next delivery' put =>
        obtain ⟨done, failing, later, reached, whole, bound, fault⟩ := ih ran
        refine ⟨entry :: done, failing, later, reached, by rw [whole]; rfl, ?_, fault⟩
        simp only [bindAll, taken, put, bound]

theorem exists_fault_of_run (found : job.entries tree = .ok entries)
    (stopped : (job.run destination tree).result = .error stop) (deliverable : stop ≠ .unwritable) :
    ∃ done failing later reached, entries = done ++ failing :: later ∧
      job.bindAll destination (.start job.project) ⟨tree, []⟩ done =
        ⟨(job.run destination tree).delivery, .ok reached⟩ ∧
      Fault job (job.run destination tree).delivery.tree reached failing stop := by
  unfold run at stopped ⊢
  rw [found] at stopped ⊢
  simp only at stopped ⊢
  split at stopped
  · next delivery stop ran =>
    cases stopped
    exact exists_fault_of_bindAll deliverable ran
  · -- The client's file can only fail to be written.
    unfold finish at stopped
    split at stopped
    · cases stopped
    · cases stopped
      exact absurd rfl deliverable

end Job

/-! ## Runs over fewer pages -/

section Fewer

variable {job : Job} {destination : Destination} {tree fewer : FileTree} {progress last : Progress}
  {delivery delivered : Delivery} {file : GeneratedFile} {files : List GeneratedFile}

/-- What can be delivered can be delivered where there are fewer files. -/
theorem put_within (within : fewer.Within delivery.tree) (always : file.rule = .always)
    (done : delivery.put destination file = (delivered, true)) :
    ∃ now, now.Within delivered.tree ∧
      Delivery.put destination ⟨fewer, delivery.files⟩ file = (⟨now, delivered.files⟩, true) := by
  cases destination with
  | preview =>
    cases done
    exact ⟨fewer, within, rfl⟩
  | disk =>
    obtain ⟨wrote, listed⟩ := put_disk_eq always done
    obtain ⟨now, wrote', within'⟩ := within.write wrote
    refine ⟨now, within', ?_⟩
    rw [put_disk _ always, wrote', listed]
    rfl

theorem putAll_within (within : fewer.Within delivery.tree)
    (always : ∀ file ∈ files, file.rule = .always)
    (done : delivery.putAll destination files = (delivered, true)) :
    ∃ now, now.Within delivered.tree ∧
      Delivery.putAll destination ⟨fewer, delivery.files⟩ files = (⟨now, delivered.files⟩, true) := by
  induction files generalizing delivery fewer with
  | nil =>
    cases done
    exact ⟨fewer, within, rfl⟩
  | cons file files ih =>
    obtain ⟨first, others⟩ := List.forall_mem_cons.1 always
    unfold Delivery.putAll at done ⊢
    split at done
    · next put =>
      obtain ⟨now, within', put'⟩ := put_within within first put
      rw [put']
      exact ih within' others done
    · cases done

/-- A page is bound where there are fewer files as it is otherwise, unless it cannot be read. -/
theorem step_within (within : fewer.Within tree) (progress : Progress) (entry : Entry) :
    (∃ error, job.step fewer progress entry = .error (.source error)) ∨
      job.step fewer progress entry = job.step tree progress entry := by
  unfold Job.step
  cases read : entry.read fewer job.project.schemasDir job.project.settings.input with
  | error error => exact .inl ⟨error, rfl⟩
  | ok record =>
    rw [Entry.read_within within read]
    exact .inr rfl

/-- Pages are bound where there are fewer files as they are otherwise, unless one cannot be read. -/
theorem bindAll_within {entries : List Entry} (within : fewer.Within delivery.tree)
    (ran : job.bindAll destination progress delivery entries = ⟨delivered, .ok last⟩) :
    (∃ stopped error, job.bindAll destination progress ⟨fewer, delivery.files⟩ entries =
        ⟨stopped, .error (.source error)⟩) ∨
      ∃ now, now.Within delivered.tree ∧
        job.bindAll destination progress ⟨fewer, delivery.files⟩ entries =
          ⟨⟨now, delivered.files⟩, .ok last⟩ := by
  induction entries generalizing progress delivery fewer with
  | nil =>
    cases ran
    exact .inr ⟨fewer, within, rfl⟩
  | cons entry entries ih =>
    unfold Job.bindAll at ran ⊢
    rcases step_within within progress entry with ⟨error, failed⟩ | same
    · rw [failed]
      exact .inl ⟨_, error, rfl⟩
    · rw [same]
      split at ran
      · cases ran
      · next after files taken =>
        split at ran
        · cases ran
        · next delivery' put =>
          obtain ⟨now, within', put'⟩ := putAll_within within (always_of_step taken) put
          simp only [put']
          exact ih within' ran

/-- A run over the pages that were bound, where there are fewer files, comes to its client's file
with the same files delivered, unless a page cannot be read. -/
theorem run_within {entries : List Entry} (within : fewer.Within tree)
    (found : job.entries fewer = .ok entries)
    (ran : job.bindAll destination (.start job.project) ⟨tree, []⟩ entries =
      ⟨delivered, .ok last⟩) :
    (∃ error, (job.run destination fewer).result = .error (.source error)) ∨
      ∃ now, now.Within delivered.tree ∧
        job.run destination fewer = job.finish destination ⟨now, delivered.files⟩ last := by
  unfold Job.run
  rw [found]
  rcases bindAll_within within ran with ⟨stopped, error, ran'⟩ | ⟨now, within', ran'⟩
  · exact .inl ⟨error, by simp only [ran']⟩
  · exact .inr ⟨now, within', by simp only [ran']⟩

/-- If that run ends, it has delivered the client's file besides. -/
theorem files_of_run_within {entries : List Entry} {summary : Summary} (within : fewer.Within tree)
    (found : job.entries fewer = .ok entries)
    (ran : job.bindAll destination (.start job.project) ⟨tree, []⟩ entries =
      ⟨delivered, .ok last⟩) (done : (job.run destination fewer).result = .ok summary) :
    summary = last.summary ∧
      (job.run destination fewer).delivery.files =
        delivered.files ++ [last.client.file job.outputDir] := by
  rcases run_within within found ran with ⟨error, failed⟩ | ⟨now, -, whole⟩
  · rw [failed] at done
    cases done
  · rw [whole] at done ⊢
    unfold Job.finish at done ⊢
    split at done
    · next put =>
      have listed := files_of_put (always_client _ _) put
      cases done
      exact ⟨rfl, listed⟩
    · cases done

theorem bindAll_prefix {entries : List Entry}
    (ran : job.bindAll destination progress delivery entries = ⟨delivered, .ok last⟩) :
    delivery.files <+: delivered.files := by
  refine @Job.bindAll_invariant job progress destination
    (fun _ _ reached => delivery.files <+: reached.files) ?_ [] entries last delivery delivered
    (List.prefix_refl _) ran
  intro _ _ _ _ _ _ _ before taken put
  rw [files_of_putAll (always_of_step taken) put]
  exact before.trans (List.prefix_append _ _)

/-- Whatever stops it, a run changes nothing but its files. -/
theorem run_spares (job : Job) (destination : Destination) (tree : FileTree) {place : Place}
    (apart : ¬Reach (job.run destination tree).delivery.files (job.run destination tree).delivery.tree
      place) :
    tree.Spares (job.run destination tree).delivery.tree place := by
  cases destination with
  | preview =>
    have kept : (job.run .preview tree).delivery.tree = tree := preview_tree job tree
    rw [kept]
    exact .inl rfl
  | disk =>
    have wrote : Wrote tree (job.run .disk tree).delivery.files (job.run .disk tree).delivery.tree :=
      (delivers_generate job tree).wrote
    exact wrote.others apart

end Fewer

/-- **What a run has delivered where it stops.** Let a run find its pages and stop, and not because
a file cannot be written. Then it stops at one of the pages, which is at fault, and has bound those
before it. A run over these pages alone that ends well has the same summary and delivers the same
files in the same order, and the client's file besides; a run over the first of them delivers, but
for the client's file, the first of these files. So the files of a page do not depend on later pages,
there are none of the page at fault, and no other file changes. -/
theorem stopped_run_delivers_earlier_pages (job : Job) (destination : Destination) (tree : FileTree)
    {entries : List Entry} {stop : Stop} (found : job.entries tree = .ok entries)
    (stopped : (job.run destination tree).result = .error stop)
    (deliverable : stop ≠ .unwritable) :
    ∃ done failing later last, entries = done ++ failing :: later ∧
      job.bindAll destination (.start job.project) ⟨tree, []⟩ done =
        ⟨(job.run destination tree).delivery, .ok last⟩ ∧
      Fault job (job.run destination tree).delivery.tree last failing stop ∧
      (tree.HasDistinctPlaces → ∃ fewer, fewer.Within tree ∧ job.entries fewer = .ok done) ∧
      (∀ fewer, fewer.Within tree → job.entries fewer = .ok done →
        ∀ summary, (job.run destination fewer).result = .ok summary →
          summary = last.summary ∧
            (job.run destination fewer).delivery.files =
              (job.run destination tree).delivery.files ++ [last.client.file job.outputDir]) ∧
      (∀ first, first <+: done → ∀ fewer, fewer.Within tree → job.entries fewer = .ok first →
        ∀ summary, (job.run destination fewer).result = .ok summary →
          (job.run destination fewer).delivery.files.dropLast <+:
            (job.run destination tree).delivery.files) ∧
      ∀ place, ¬Reach (job.run destination tree).delivery.files
        (job.run destination tree).delivery.tree place →
          tree.Spares (job.run destination tree).delivery.tree place := by
  obtain ⟨done, failing, later, last, whole, ran, fault⟩ :=
    Job.exists_fault_of_run found stopped deliverable
  refine ⟨done, failing, later, last, whole, ran, fault, ?alone, ?same, ?first,
    fun _ => run_spares _ _ _⟩
  case alone =>
    intro distinct
    rw [whole] at found
    exact Manual.exists_within_of_enumerate distinct found
  case same =>
    intro fewer within found' summary ended
    exact files_of_run_within within found' ran ended
  case first =>
    rintro first ⟨rest, rfl⟩ fewer within found' summary ended
    rw [Job.bindAll_append] at ran
    split at ran
    · cases ran
    · next reached ran' =>
      obtain ⟨-, listed⟩ := files_of_run_within within found' ran' ended
      rw [listed, List.dropLast_concat]
      exact bindAll_prefix ran

/-- A page that is bound, one that is left out, one whose result has no type, and one behind it. -/
def untypedThird : FileTree :=
  let page (text : String) : FileEntry := .file (.text text)
  { working := []
    entries := [
      (["doc"], .directory),
      (["doc", "lightning-a.7.md"], page "**a**\n\nDESCRIPTION\n"),
      (["doc", "lightning-b.7.md"], page "B\n"),
      (["doc", "lightning-c.7.md"], page "**c**\n\nDESCRIPTION\n"),
      (["doc", "lightning-d.7.md"], page "**d**\n\nDESCRIPTION\n"),
      (["doc", "schemas"], .directory),
      (["doc", "schemas", "a.schema.json"], page "true"),
      (["doc", "schemas", "b.schema.json"], page "true"),
      (["doc", "schemas", "c.schema.json"], page r#"{"type": "outpoint"}"#),
      (["doc", "schemas", "d.schema.json"], page "true")] }

/-- The first two of these pages. -/
def firstTwo : FileTree :=
  untypedThird.without [["doc", "lightning-c.7.md"], ["doc", "lightning-d.7.md"]]

theorem entries_untypedThird : (Report.jobOf default).entries untypedThird =
    .ok (["a", "b", "c", "d"].map fun stem => ⟨⟨"doc/lightning-" ++ stem ++ ".7.md"⟩, stem⟩) := by
  have leads : untypedThird.locate (Report.jobOf default).project.docsDir = .ok ["doc"] := by
    decide +kernel
  exact Job.entries_of_sorted leads rfl (by decide +kernel) (by decide +kernel)

theorem entries_firstTwo : (Report.jobOf default).entries firstTwo =
    .ok (["a", "b"].map fun stem => ⟨⟨"doc/lightning-" ++ stem ++ ".7.md"⟩, stem⟩) := by
  have leads : firstTwo.locate (Report.jobOf default).project.docsDir = .ok ["doc"] := by
    decide +kernel
  exact Job.entries_of_sorted leads rfl (by decide +kernel) (by decide +kernel)

/-- The third page stops the run, and the first has been delivered as it is without it. -/
theorem stopped_run_delivers_earlier_pages_untypedThird :
    let job := Report.jobOf default
    ∃ stop summary, (job.run .disk untypedThird).result = .error stop ∧ stop ≠ .unwritable ∧
      (job.run .disk firstTwo).result = .ok summary ∧
      summary.commands = ["a"] ∧ summary.skipped = ["b"] ∧
      (job.run .disk firstTwo).delivery.files.dropLast =
        (job.run .disk untypedThird).delivery.files := by
  intro job
  have stops : (match (job.run .disk untypedThird).result with
      | .error (.type stem _) => some stem
      | _ => none) = some "c" := by
    unfold Job.run
    rw [entries_untypedThird]
    decide +kernel
  have ends : ((job.run .disk firstTwo).result.toOption.map
      fun summary => (summary.commands, summary.skipped)) = some (["a"], ["b"]) := by
    unfold Job.run
    rw [entries_firstTwo]
    decide +kernel
  obtain ⟨error, stopped⟩ :
      ∃ error, (job.run .disk untypedThird).result = .error (.type "c" error) := by
    split at stops
    · next stopped =>
      cases stops
      exact ⟨_, stopped⟩
    · cases stops
  obtain ⟨summary, done, same⟩ := map_toOption_eq_some.1 ends
  obtain ⟨commands, skipped⟩ := Prod.mk.inj same
  obtain ⟨earlier, failing, later, last, whole, -, fault, -, alike, -⟩ :=
    stopped_run_delivers_earlier_pages job .disk untypedThird entries_untypedThird stopped nofun
  have failing_eq := Job.stem_of_fault fault
  have earlier_eq : earlier = ["a", "b"].map fun stem =>
      ⟨⟨"doc/lightning-" ++ stem ++ ".7.md"⟩, stem⟩ := by
    rcases earlier with _ | ⟨_, _ | ⟨_, _ | ⟨_, _ | ⟨_, rest⟩⟩⟩⟩
    · cases whole
      exact absurd failing_eq (by decide)
    · cases whole
      exact absurd failing_eq (by decide)
    · cases whole
      rfl
    · cases whole
      exact absurd failing_eq (by decide)
    · simp at whole
  have within : firstTwo.Within untypedThird := FileTree.within_without (by decide +kernel)
  obtain ⟨-, listed⟩ := alike firstTwo within (earlier_eq ▸ entries_firstTwo) summary done
  refine ⟨_, summary, stopped, nofun, done, commands, skipped, ?_⟩
  rw [listed, List.dropLast_concat]

end Bindery.Run
