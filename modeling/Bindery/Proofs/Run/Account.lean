import Bindery.Proofs.Manual.Pages
import Bindery.Proofs.Run.Exits
import Bindery.Report.OfRun

/-!
# Every page is accounted for

A run that ends names each page once, as a command or as left out, and reports those left out by one
error each. So whether errors were found says whether pages were left out.
-/

namespace Bindery.Run
set_option autoImplicit false

open Binding (errorPlaces hasErrors)
open Manual (Entry Record)
open Output (GeneratedFile)

/-- A summary of the pages with these stems, in this order. -/
structure Account (stems : List String) (summary : Summary) : Prop where
  commands : summary.commands.Sublist stems
  skipped : summary.skipped.Sublist stems
  every : (summary.commands ++ summary.skipped).Perm stems
  errors : errorPlaces summary.diagnostics = summary.skipped.map some

namespace Account

variable {stems : List String} {stem : String} {found : List Binding.Diagnostic}
  {progress after : Progress}

theorem start (project : Project) : Account [] (Progress.start project).summary :=
  ⟨.slnil, .slnil, .nil, rfl⟩

/-- A page that is left out is reported by one error. -/
theorem skip (h : Account stems progress.summary) (reported : errorPlaces found = [some stem]) :
    Account (stems ++ [stem]) (progress.skip stem found).summary := by
  constructor
  · exact h.commands.trans (List.sublist_append_left _ _)
  · exact h.skipped.append (List.Sublist.refl _)
  · unfold Progress.skip
    rw [← List.append_assoc]
    exact h.every.append_right _
  · unfold Progress.skip
    rw [Binding.errorPlaces_append, h.errors, reported, List.map_append]
    rfl

/-- A page that is bound is reported by none. -/
theorem bind (h : Account stems progress.summary) {command : Binding.Command}
    (named : command.stem = stem) (reported : errorPlaces found = []) :
    Account (stems ++ [stem]) (progress.bind command found).summary := by
  subst named
  constructor
  · exact h.commands.append (List.Sublist.refl _)
  · exact h.skipped.trans (List.sublist_append_left _ _)
  · have last : (progress.summary.commands ++ [command.stem] ++ progress.summary.skipped).Perm
        (progress.summary.commands ++ progress.summary.skipped ++ [command.stem]) := by
      rw [List.append_assoc, List.append_assoc]
      exact List.perm_append_comm.append_left _
    exact last.trans (h.every.append_right _)
  · unfold Progress.bind
    rw [Binding.errorPlaces_append, h.errors, reported, List.append_nil]

/-- Whichever way a page leaves a run, it is accounted for. -/
theorem exit (h : Account stems progress.summary) {job : Job} {record : Record}
    {files : List GeneratedFile} (exit : Exit job progress record after files) :
    Account (stems ++ [record.stem]) after.summary := by
  cases exit with
  | noCommand none => exact h.skip (Binding.errorPlaces_of_no_command none)
  | methodTaken some apart conflict =>
    obtain ⟨named, reported⟩ := Binding.errorPlaces_of_command some
    rw [← named]
    refine h.skip ?_
    rw [Binding.errorPlaces_append, Job.analysis, reported]
    rfl
  | bound some apart free typed =>
    obtain ⟨named, reported⟩ := Binding.errorPlaces_of_command some
    exact h.bind named reported

variable {summary : Summary}

theorem disjoint (h : Account stems summary) (distinct : stems.Nodup) :
    summary.commands.Disjoint summary.skipped :=
  List.disjoint_of_nodup_append (h.every.nodup_iff.2 distinct)

/-- Errors were found exactly if pages were left out. -/
theorem hasErrors_iff (h : Account stems summary) :
    hasErrors summary.diagnostics = true ↔ summary.skipped ≠ [] := by
  rw [Binding.hasErrors_iff, h.errors]
  simp

end Account

/-- A run that ends accounts for the pages of its project. -/
theorem Job.account_of_run {job : Job} {destination : Destination} {tree : FileTree}
    {summary : Summary} (done : (job.run destination tree).result = .ok summary) :
    ∃ entries, job.entries tree = .ok entries ∧ (entries.map (·.stem)).Nodup ∧
      Account (entries.map (·.stem)) summary := by
  obtain ⟨entries, progress, delivery, found, ran, rfl⟩ := Job.bindAll_of_run done
  refine ⟨entries, found, Manual.nodup_stems found, ?_⟩
  have first : Account (([] : List Entry).map (·.stem)) (Progress.start job.project).summary :=
    Account.start job.project
  refine Job.bindAll_invariant
    (motive := fun done progress _ => Account (done.map (·.stem)) progress.summary) ?_ first ran
  intro done entry progress delivery after files delivered account taken _
  obtain ⟨record, read, exit⟩ := Job.exit_of_step taken
  rw [List.map_append, List.map_singleton, ← Manual.Entry.read_stem read]
  exact account.exit exit

/-- **A run that ends accounts for every page.** Its commands and the pages it left out come in the
order of the stems, and together they are all stems, each once. The errors are one for each page
that was left out, at its stem and in their order, and none at a command. So errors are found, and a
check fails, exactly if a page was left out. -/
theorem run_accounts (job : Job) (destination : Destination) (tree : FileTree) :
    (∀ summary, (job.run destination tree).result = .ok summary →
      ∃ entries, job.entries tree = .ok entries ∧
        (entries.map (·.stem)).Nodup ∧
        summary.commands.Sublist (entries.map (·.stem)) ∧
        summary.skipped.Sublist (entries.map (·.stem)) ∧
        summary.commands.Disjoint summary.skipped ∧
        (summary.commands ++ summary.skipped).Perm (entries.map (·.stem)) ∧
        errorPlaces summary.diagnostics = summary.skipped.map some ∧
        (∀ stem ∈ summary.commands, some stem ∉ errorPlaces summary.diagnostics) ∧
        (hasErrors summary.diagnostics = true ↔ summary.skipped ≠ [])) ∧
      ∀ check, Report.checkOf job.project tree = .ok check →
        (check.isValid = true ↔ check.skipped = []) := by
  constructor
  · intro summary done
    obtain ⟨entries, found, distinct, account⟩ := Job.account_of_run done
    refine ⟨entries, found, distinct, account.commands, account.skipped,
      account.disjoint distinct, account.every, account.errors, ?_, account.hasErrors_iff⟩
    intro stem bound error
    rw [account.errors] at error
    obtain ⟨left, mem, same⟩ := List.mem_map.1 error
    cases same
    exact account.disjoint distinct bound mem
  · intro check checked
    unfold Report.checkOf Report.ofOutcome at checked
    cases done : ((Report.jobOf job.project).preview tree).result with
    | error stop =>
      rw [done] at checked
      cases checked
    | ok summary =>
      rw [done] at checked
      cases checked
      obtain ⟨entries, -, -, account⟩ := Job.account_of_run done
      unfold Report.Check.isValid
      rw [Bool.not_eq_true', ← Bool.not_eq_true, account.hasErrors_iff, ne_eq, not_not]

/-- A page for each way to leave a run: one is bound, one has no description, the method of one is
taken, and one has a synopsis that cannot be read. -/
def fourPages : FileTree :=
  let page (text : String) : FileEntry := .file (.text text)
  { working := []
    entries := [
      (["doc"], .directory),
      (["doc", "lightning-a.7.md"], page "**a**\n\nDESCRIPTION\n"),
      (["doc", "lightning-b.7.md"], page "B\n"),
      (["doc", "lightning-c.7.md"], page "**a**\n\nDESCRIPTION\n"),
      (["doc", "lightning-d.7.md"], page "**d\n\nDESCRIPTION\n"),
      (["doc", "schemas"], .directory),
      (["doc", "schemas", "a.schema.json"], page "true"),
      (["doc", "schemas", "b.schema.json"], page "true"),
      (["doc", "schemas", "c.schema.json"], page "true"),
      (["doc", "schemas", "d.schema.json"], page "true")] }

theorem run_accounts_fourPages :
    let job := Report.jobOf default
    ∃ summary check, (job.run .preview fourPages).result = .ok summary ∧
      Report.checkOf job.project fourPages = .ok check ∧
      summary.commands = ["a"] ∧ summary.skipped = ["b", "c", "d"] ∧
      errorPlaces summary.diagnostics = summary.skipped.map some ∧
      (check.isValid = true ↔ check.skipped = []) := by
  intro job
  have found : job.entries fourPages = .ok (["a", "b", "c", "d"].map fun stem =>
      ⟨⟨"doc/lightning-" ++ stem ++ ".7.md"⟩, stem⟩) := by
    have leads : fourPages.locate job.project.docsDir = .ok ["doc"] := by decide +kernel
    exact (Manual.enumerate_of_sorted leads rfl (by decide +kernel)).trans (by decide +kernel)
  have ran : ((job.run .preview fourPages).result.toOption.map
      fun summary => (summary.commands, summary.skipped)) = some (["a"], ["b", "c", "d"]) := by
    unfold Job.run
    rw [found]
    decide +kernel
  obtain ⟨accounts, checks⟩ := run_accounts job .preview fourPages
  cases done : (job.run .preview fourPages).result with
  | error stop =>
    rw [done] at ran
    cases ran
  | ok summary =>
    rw [done] at ran
    simp only [Except.toOption, Option.map_some, Option.some.injEq, Prod.mk.injEq] at ran
    obtain ⟨-, -, -, -, -, -, -, errors, -⟩ := accounts summary done
    have checked : Report.checkOf job.project fourPages =
        .ok ⟨job.project.path, summary.commands.length, summary.skipped, summary.diagnostics⟩ := by
      have same : Report.jobOf job.project = job := rfl
      unfold Report.checkOf Report.ofOutcome Job.preview
      rw [same, done]
      rfl
    exact ⟨summary, _, rfl, checked, ran.1, ran.2, errors, checks _ checked⟩

end Bindery.Run
