import Bindery.Proofs.Manual.Pages
import Bindery.Proofs.Run.Writes

/-!
# The course of a run

A run binds its pages one after another, and what it does with the first of them does not depend on
the others. What it has bound at any time is a list of commands, each from a page as it was read
then. The client and the files that were delivered so far are those of the commands.
-/

namespace Bindery.Run
set_option autoImplicit false

open Binding (Command)
open Manual (Entry Record)
open Output (GeneratedFile)
open TypeScript (Client)

/-! ## Pages in order -/

/-- Where the names of pages are sorted in the tree, the pages are found in its order. -/
theorem Job.entries_of_sorted {job : Job} {tree : FileTree} {entries : List Entry} {place : Place}
    (leads : tree.locate job.project.docsDir = .ok place)
    (directory : tree.lookup place = some .directory)
    (sorted : (Manual.unsortedNames tree job.project.docsDir job.project.settings.input.suffix
      place).Pairwise fun a b => decide (a ≤ b) = true)
    (listed : (Manual.stemsOf job.project.settings.input.suffix
        job.project.settings.input.stripPrefix [] (Manual.unsortedNames tree job.project.docsDir
          job.project.settings.input.suffix place)).map
      (·.map fun e => ⟨job.project.docsDir.join ⟨e.2⟩, e.1⟩) = .ok entries) :
    job.entries tree = .ok entries :=
  (Manual.enumerate_of_sorted leads directory sorted).trans listed

/-- The pages behind the first ones are bound where those are. -/
theorem Job.bindAll_append (job : Job) (destination : Destination) (progress : Progress)
    (delivery : Delivery) (first rest : List Entry) :
    job.bindAll destination progress delivery (first ++ rest) =
      match job.bindAll destination progress delivery first with
      | ⟨delivered, .error stop⟩ => ⟨delivered, .error stop⟩
      | ⟨delivered, .ok reached⟩ => job.bindAll destination reached delivered rest := by
  induction first generalizing progress delivery with
  | nil => rfl
  | cons entry first ih =>
    rw [List.cons_append]
    simp only [bindAll]
    split
    · rfl
    · split
      · rfl
      · exact ih _ _

/-- In the course of a run a page is read, as this record, when those before it are bound. -/
def Job.Reads (job : Job) (destination : Destination) (tree : FileTree) (entry : Entry)
    (record : Record) : Prop :=
  ∃ done rest progress delivery, job.entries tree = .ok (done ++ entry :: rest) ∧
    job.bindAll destination (.start job.project) ⟨tree, []⟩ done = ⟨delivery, .ok progress⟩ ∧
    entry.read delivery.tree job.project.schemasDir job.project.settings.input = .ok record

/-! ## Commands -/

/-- A command that a run binds: its page as it is read, and the text of its result's type. -/
structure Bound (job : Job) (destination : Destination) (tree : FileTree) where
  entry : Entry
  record : Record
  command : Command
  response : String
  read : job.Reads destination tree entry record
  analyzed : (job.analysis record).command = some command
  apart : command.stem ++ ".ts" ≠ job.project.settings.output.clientFile
  typed : TypeScript.compile command.method.response command.schema = .ok response

namespace Bound

variable {job : Job} {destination : Destination} {tree : FileTree}

/-- The command's place in the client. -/
def member (bound : Bound job destination tree) : String × Binding.Method :=
  (bound.command.stem, bound.command.method)

/-- The command's files. -/
def files (bound : Bound job destination tree) : List GeneratedFile :=
  job.commandFiles bound.command bound.response

theorem stem_eq (bound : Bound job destination tree) : bound.command.stem = bound.entry.stem := by
  obtain ⟨_, _, _, _, -, -, done⟩ := bound.read
  rw [(Binding.errorPlaces_of_command bound.analyzed).1, Manual.Entry.read_stem done]

end Bound

/-- What a run has come to when these commands are bound. -/
structure Tally {job : Job} {destination : Destination} {tree : FileTree}
    (bounds : List (Bound job destination tree)) (progress : Progress)
    (files : List GeneratedFile) : Prop where
  commands : progress.summary.commands = bounds.map (·.command.stem)
  client : progress.client = ⟨job.project.settings.output.clientName,
    job.project.settings.output.clientFile, bounds.map Bound.member⟩
  files : files = bounds.flatMap Bound.files
  apart : bounds.Pairwise fun a b => Client.clashes a.command.method b.command.method = false

theorem conflict?_eq_none {client : Client} {method : Binding.Method}
    (free : client.conflict? method = none) :
    ∀ e ∈ client.entries, Client.clashes e.2 method = false := by
  unfold Client.conflict? at free
  rw [Option.map_eq_none_iff, List.find?_eq_none] at free
  exact fun e mem => Bool.eq_false_iff.2 (free e mem)

section

variable {job : Job} {destination : Destination} {tree : FileTree} {progress after : Progress}
  {files more : List GeneratedFile} {bounds : List (Bound job destination tree)}

theorem Tally.start (job : Job) (destination : Destination) (tree : FileTree) :
    Tally ([] : List (Bound job destination tree)) (.start job.project) [] :=
  ⟨rfl, rfl, rfl, .nil⟩

/-- A page that is left out adds no command, and a page that is bound adds one. -/
theorem Tally.exit (h : Tally bounds progress files) {entry : Entry} {record : Record}
    (read : job.Reads destination tree entry record) (exit : Exit job progress record after more) :
    ∃ bounds : List (Bound job destination tree), Tally bounds after (files ++ more) := by
  cases exit with
  | noCommand none =>
    rw [List.append_nil]
    exact ⟨bounds, h.commands, h.client, h.files, h.apart⟩
  | methodTaken some apart conflict =>
    rw [List.append_nil]
    exact ⟨bounds, h.commands, h.client, h.files, h.apart⟩
  | @bound command some apart free response typed =>
    let new : Bound job destination tree :=
      ⟨entry, record, command, response, read, some, apart, typed⟩
    refine ⟨bounds ++ [new], ?_, ?_, ?_, ?_⟩
    · rw [List.map_append, ← h.commands]
      rfl
    · unfold Progress.bind Client.push
      rw [h.client, List.map_append]
      rfl
    · rw [List.flatMap_append, ← h.files, List.flatMap_singleton]
      rfl
    · refine List.pairwise_append.2 ⟨h.apart, List.pairwise_singleton _ _, ?_⟩
      intro old mem other same
      rw [List.mem_singleton.1 same]
      refine conflict?_eq_none free old.member ?_
      rw [h.client]
      exact List.mem_map_of_mem mem

/-- What holds of a run and stays true when a page is read and leaves it holds at its end, where the
client's file is delivered. -/
theorem Job.course_of_run {motive : List Entry → Progress → List GeneratedFile → Prop}
    (start : motive [] (.start job.project) [])
    (step : ∀ {before : List Entry} {entry : Entry} {record : Record} {progress after : Progress}
      {files more : List GeneratedFile}, motive before progress files →
      job.Reads destination tree entry record → Exit job progress record after more →
      motive (before ++ [entry]) after (files ++ more))
    {summary : Summary} (done : (job.run destination tree).result = .ok summary) :
    ∃ entries last files, job.entries tree = .ok entries ∧ motive entries last files ∧
      last.summary = summary ∧
        (job.run destination tree).delivery.files = files ++ [last.client.file job.outputDir] := by
  obtain ⟨entries, last, delivered, found, ran, same⟩ := Job.bindAll_of_run done
  -- How the pages so far were bound is kept as well, as that is where the next one is read.
  have whole : entries <+: entries → motive entries last delivered.files := by
    have first : job.bindAll destination (.start job.project) ⟨tree, []⟩ [] =
        ⟨⟨tree, []⟩, .ok (.start job.project)⟩ := rfl
    refine (Job.bindAll_invariant
      (motive := fun done progress delivery =>
        job.bindAll destination (.start job.project) ⟨tree, []⟩ done = ⟨delivery, .ok progress⟩ ∧
          (done <+: entries → motive done progress delivery.files))
      ?_ ⟨first, fun _ => start⟩ ran).2
    rintro before entry progress delivery after files delivered ⟨reached, holds⟩ taken put
    refine ⟨?_, fun part => ?_⟩
    · rw [Job.bindAll_append, reached]
      simp only [Job.bindAll, taken, put]
    · obtain ⟨record, read, exit⟩ := Job.exit_of_step taken
      have holds := holds ((List.prefix_append _ _).trans part)
      obtain ⟨rest, whole⟩ := part
      rw [List.append_assoc] at whole
      rw [files_of_putAll (always_of_step taken) put]
      exact step holds ⟨before, rest, progress, delivery, whole ▸ found, reached, read⟩ exit
  refine ⟨entries, last, delivered.files, found, whole (List.prefix_refl _), same, ?_⟩
  unfold Job.run at done ⊢
  rw [found] at done ⊢
  simp only [ran] at done ⊢
  unfold Job.finish at done ⊢
  split
  · next put => exact files_of_put (always_client _ _) put
  · next put =>
    rw [put] at done
    cases done

/-- **What a run comes to.** A run that ends has bound commands, and delivered their files and then
the client's. -/
theorem Job.tally_of_run {summary : Summary}
    (done : (job.run destination tree).result = .ok summary) :
    ∃ (bounds : List (Bound job destination tree)) (last : Progress) (files : List GeneratedFile),
      Tally bounds last files ∧ last.summary = summary ∧
        (job.run destination tree).delivery.files = files ++ [last.client.file job.outputDir] := by
  obtain ⟨-, last, files, -, ⟨bounds, tally⟩, same, listed⟩ := Job.course_of_run
    (motive := fun _ progress files =>
      ∃ bounds : List (Bound job destination tree), Tally bounds progress files)
    ⟨[], .start job destination tree⟩ (fun ⟨_, tally⟩ read exit => tally.exit read exit) done
  exact ⟨bounds, last, files, tally, same, listed⟩

/-- The last file of a preview is that of the client as far as the pages are bound. -/
theorem Job.last_of_preview {entries : List Entry} {last : Progress}
    (found : job.entries tree = .ok entries)
    (ran : (job.bindAll .preview (.start job.project) ⟨tree, []⟩ entries).result = .ok last) :
    (job.run .preview tree).result = .ok last.summary ∧
      (job.run .preview tree).delivery.files.getLast? = some (last.client.file job.outputDir) := by
  unfold Job.run
  rw [found]
  cases whole : job.bindAll .preview (.start job.project) ⟨tree, []⟩ entries with
  | mk delivery result =>
    rw [whole] at ran
    cases ran
    simp only [whole, Job.finish, Delivery.put, List.getLast?_concat, and_self]

end

end Bindery.Run
