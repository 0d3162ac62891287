import Bindery.Proofs.Run.Account
import Bindery.Proofs.Run.Course
import Bindery.Proofs.Run.Rerun
import Bindery.Run.Listing

/-!
# Listings and runs

A listing goes through the pages of a project on its own and compiles nothing. Where a run reads its
pages as they were at the start, the two agree: the pages that a listing leaves out are those that
the run could not read a synopsis in, and it shows all others, by the fields of the type that the run
writes for their parameters.
-/

namespace Bindery.Run
set_option autoImplicit false

open Binding (Diagnostic errorPlaces)
open Manual (Entry Page Record)
open TypeScript (Field)

/-! ## Where pages are left out -/

/-- The stems that were left out with an error of one of these phases. -/
def Summary.skippedIn (summary : Summary) (phases : List String) : List String :=
  summary.skipped.filter fun stem => summary.diagnostics.any fun d =>
    d.isError && d.location = some stem && d.phase ∈ phases

/-- The phases in which a synopsis is looked for. -/
def synopsisPhases : List String := ["sections", "synopsis"]

/-- The phases in which a command is bound. -/
def bindPhases : List String := ["bind"]

theorem mem_skippedIn {summary : Summary} {phases : List String} {stem : String} :
    stem ∈ summary.skippedIn phases ↔ stem ∈ summary.skipped ∧
      ∃ d ∈ summary.diagnostics, d.isError = true ∧ d.location = some stem ∧ d.phase ∈ phases := by
  simp [Summary.skippedIn, List.mem_filter, List.any_eq_true, and_assoc]

/-- A page without command has an error of one of the first phases. -/
theorem error_of_no_command {table : Schema.TagTable} {locator : Manual.Locator} {record : Record}
    (none : (Binding.analyze table locator record).command = none) :
    ∃ d ∈ (Binding.analyze table locator record).diagnostics,
      d.isError = true ∧ d.location = some record.stem ∧ d.phase ∈ synopsisPhases := by
  unfold Binding.analyze at none ⊢
  simp only at none ⊢
  split
  · exact ⟨_, List.mem_singleton_self _, rfl, rfl, List.mem_cons_self⟩
  · next located =>
    rw [located] at none
    simp only at none
    split
    · exact ⟨_, List.mem_singleton_self _, rfl, rfl, List.mem_cons_of_mem _ List.mem_cons_self⟩
    · next read =>
      rw [read] at none
      cases none

/-- No page has two errors. -/
theorem Account.error_unique {stems : List String} {summary : Summary}
    (account : Account stems summary) (distinct : stems.Nodup) {d e : Diagnostic}
    (found : d ∈ summary.diagnostics) (found' : e ∈ summary.diagnostics) (error : d.isError = true)
    (error' : e.isError = true) (there : d.location = e.location) : d = e := by
  have places : (errorPlaces summary.diagnostics).Nodup := by
    rw [account.errors]
    exact (account.skipped.nodup distinct).map fun _ _ => Option.some.inj
  exact List.inj_on_of_nodup_map places (List.mem_filter.2 ⟨found, error⟩)
    (List.mem_filter.2 ⟨found', error'⟩) there

theorem Account.disjoint_phases {stems : List String} {summary : Summary}
    (account : Account stems summary) (distinct : stems.Nodup) :
    (summary.skippedIn synopsisPhases).Disjoint (summary.skippedIn bindPhases) := by
  intro stem first second
  obtain ⟨-, d, found, error, there, phase⟩ := mem_skippedIn.1 first
  obtain ⟨-, e, found', error', there', phase'⟩ := mem_skippedIn.1 second
  rw [account.error_unique distinct found found' error error' (there.trans there'.symm),
    List.mem_singleton.1 phase'] at phase
  exact absurd phase (by decide)

/-- A page that leaves a run adds to what the summary holds. -/
theorem subset_of_exit {job : Job} {progress after : Progress} {record : Record}
    {files : List Output.GeneratedFile} (exit : Exit job progress record after files) :
    progress.summary.commands ⊆ after.summary.commands ∧
      progress.summary.skipped ⊆ after.summary.skipped ∧
      progress.summary.diagnostics ⊆ after.summary.diagnostics := by
  cases exit with
  | noCommand _ =>
    exact ⟨List.Subset.refl _, List.subset_append_left _ _, List.subset_append_left _ _⟩
  | methodTaken _ _ _ =>
    exact ⟨List.Subset.refl _, List.subset_append_left _ _, List.subset_append_left _ _⟩
  | bound _ _ _ _ =>
    exact ⟨List.subset_append_left _ _, List.Subset.refl _, List.subset_append_left _ _⟩

/-- What a summary says of a page. -/
inductive Fate (analysis : Binding.Analysis) (stem : String) (summary : Summary) : Prop
  | unreadable (none : analysis.command = none) (left : stem ∈ summary.skippedIn synopsisPhases)
  | taken (some : analysis.command.isSome = true) (left : stem ∈ summary.skippedIn bindPhases)
  | bound (some : analysis.command.isSome = true) (mem : stem ∈ summary.commands)

namespace Fate

variable {job : Job} {progress after : Progress} {record : Record}
  {files : List Output.GeneratedFile} {analysis : Binding.Analysis} {stem : String}
  {stems : List String} {summary : Summary}

theorem of_exit (exit : Exit job progress record after files) :
    Fate (job.analysis record) record.stem after.summary := by
  cases exit with
  | noCommand none =>
    obtain ⟨d, found, error, there, phase⟩ := error_of_no_command none
    refine .unreadable none (mem_skippedIn.2 ⟨?_, d, ?_, error, there, phase⟩)
    · exact List.mem_append_right _ List.mem_cons_self
    · exact List.mem_append_right _ found
  | @methodTaken command some apart existing conflict =>
    obtain ⟨named, -⟩ := Binding.errorPlaces_of_command some
    refine .taken (by rw [some]; rfl) (mem_skippedIn.2
      ⟨?_, methodTaken command existing, ?_, rfl, congrArg _ named, List.mem_cons_self⟩)
    · rw [← named]
      exact List.mem_append_right _ List.mem_cons_self
    · exact List.mem_append_right _ (List.mem_append_right _ List.mem_cons_self)
  | @bound command some apart free response typed =>
    obtain ⟨named, -⟩ := Binding.errorPlaces_of_command some
    refine .bound (by rw [some]; rfl) ?_
    rw [← named]
    exact List.mem_append_right _ List.mem_cons_self

/-- What is said of a page stays said. -/
theorem later (h : Fate analysis stem progress.summary)
    (exit : Exit job progress record after files) : Fate analysis stem after.summary := by
  obtain ⟨commands, skipped, diagnostics⟩ := subset_of_exit exit
  have left : ∀ phases, stem ∈ progress.summary.skippedIn phases →
      stem ∈ after.summary.skippedIn phases := by
    intro phases mem
    obtain ⟨left, d, found, error⟩ := mem_skippedIn.1 mem
    exact mem_skippedIn.2 ⟨skipped left, d, diagnostics found, error⟩
  cases h with
  | unreadable none mem => exact .unreadable none (left _ mem)
  | taken some mem => exact .taken some (left _ mem)
  | bound some mem => exact .bound some (commands mem)

/-- Each page has one fate, so the pages without command are those left out in the first phases. -/
theorem mem_skippedIn_iff (h : Fate analysis stem summary) (account : Account stems summary)
    (distinct : stems.Nodup) :
    stem ∈ summary.skippedIn synopsisPhases ↔ analysis.command.isSome = false := by
  cases h with
  | unreadable none left => simp [none, left]
  | taken some left =>
    simp only [some, Bool.true_eq_false, iff_false]
    exact fun mem => account.disjoint_phases distinct mem left
  | bound some mem =>
    simp only [some, Bool.true_eq_false, iff_false]
    exact fun left => account.disjoint distinct mem (mem_skippedIn.1 left).1

theorem mem_commands_or_iff (h : Fate analysis stem summary) (account : Account stems summary)
    (distinct : stems.Nodup) :
    stem ∈ summary.commands ∨ stem ∈ summary.skippedIn bindPhases ↔
      analysis.command.isSome = true := by
  cases h with
  | unreadable none left =>
    simp only [none, Option.isSome_none, Bool.false_eq_true, iff_false, not_or]
    exact ⟨fun mem => account.disjoint distinct mem (mem_skippedIn.1 left).1,
      account.disjoint_phases distinct left⟩
  | taken some left => simp [some, left]
  | bound some mem => simp [some, mem]

end Fate

section Run

variable {job : Job} {destination : Destination} {tree : FileTree} {entries : List Entry}
  {summary : Summary}

/-- Pages that were read, and of which a summary says what became of them. -/
def Told (job : Job) (destination : Destination) (tree : FileTree) (entries : List Entry)
    (summary : Summary) : Prop :=
  ∀ entry ∈ entries, ∃ record, job.Reads destination tree entry record ∧
    Fate (job.analysis record) entry.stem summary

theorem Told.exit {progress after : Progress} {entry : Entry} {record : Record}
    {files : List Output.GeneratedFile} (h : Told job destination tree entries progress.summary)
    (reads : job.Reads destination tree entry record) (exit : Exit job progress record after files) :
    Told job destination tree (entries ++ [entry]) after.summary := by
  intro other mem
  rcases List.mem_append.1 mem with mem | mem
  · obtain ⟨record, reads, fate⟩ := h other mem
    exact ⟨record, reads, fate.later exit⟩
  · rw [List.mem_singleton.1 mem]
    obtain ⟨_, _, _, _, -, -, read⟩ := id reads
    exact ⟨record, reads, Manual.Entry.read_stem read ▸ Fate.of_exit exit⟩

/-- A run that ends has read every page, and says what became of it. -/
theorem Job.told_of_run (done : (job.run destination tree).result = .ok summary) :
    ∃ entries, job.entries tree = .ok entries ∧ Told job destination tree entries summary := by
  obtain ⟨entries, last, -, found, told, rfl, -⟩ := Job.course_of_run
    (motive := fun entries progress _ => Told job destination tree entries progress.summary)
    nofun (fun told reads exit => told.exit reads exit) done
  exact ⟨entries, found, told⟩

/-! ## Listings -/

/-- How a listing shows a page, if it does. -/
def Job.shown (job : Job) (record : Record) : Option (String × String) :=
  (job.analysis record).command.map fun command => (command.stem, command.descriptor.signature)

/-- Reads a page from a tree. -/
def Job.readIn (job : Job) (tree : FileTree) (entry : Entry) :
    Except Project.SourceError Record :=
  entry.read tree job.project.schemasDir job.project.settings.input

theorem foldl_add (listing : Listing) (records : List Record) :
    records.foldl (Listing.add job.project) listing =
      ⟨listing.entries ++ records.filterMap job.shown,
        listing.skipped ++
          (records.filter fun record => !(job.analysis record).command.isSome).map (·.stem)⟩ := by
  induction records generalizing listing with
  | nil => simp
  | cons record records ih =>
    rw [List.foldl_cons, ih, List.filterMap_cons, List.filter_cons]
    unfold Listing.add Job.shown
    cases some : (job.analysis record).command with
    | none =>
      unfold Job.analysis at some
      simp [some]
    | some command =>
      unfold Job.analysis at some
      simp [some]

theorem listAll_eq_ok {records : List Record} (listing : Listing)
    (read : entries.mapM (job.readIn tree) = .ok records) :
    listAll job.project tree listing entries =
      .ok (records.foldl (Listing.add job.project) listing) := by
  induction mapM_eq_ok.1 read generalizing listing with
  | nil => rfl
  | cons first rest ih =>
    unfold Job.readIn at first
    rw [listAll, first, List.foldl_cons]
    exact ih _ (mapM_eq_ok.2 rest)

/-- A listing of pages that can be read shows those with a command and leaves out the others. -/
theorem list_eq_ok {records : List Record} (found : job.entries tree = .ok entries)
    (read : entries.mapM (job.readIn tree) = .ok records) :
    list job.project tree = .ok ⟨records.filterMap job.shown,
      (records.filter fun record => !(job.analysis record).command.isSome).map (·.stem)⟩ := by
  have whole : list job.project tree = listAll job.project tree ⟨[], []⟩ entries := by
    unfold Job.entries at found
    unfold list
    rw [found]
    rfl
  rw [whole, listAll_eq_ok _ read, foldl_add, List.nil_append, List.nil_append]

theorem exists_records_of_listAll {listing after : Listing}
    (listed : listAll job.project tree listing entries = .ok after) :
    ∃ records, entries.mapM (job.readIn tree) = .ok records := by
  apply exists_mapM_eq_ok
  induction entries generalizing listing with
  | nil => nofun
  | cons entry entries ih =>
    unfold listAll at listed
    split at listed
    · cases listed
    · next record read => exact List.forall_mem_cons.2 ⟨⟨record, read⟩, ih listed⟩

/-- A listing that succeeds has read all pages. -/
theorem exists_records_of_list {listing : Listing} (listed : list job.project tree = .ok listing) :
    ∃ entries records, job.entries tree = .ok entries ∧
      entries.mapM (job.readIn tree) = .ok records ∧
      listing.entries = records.filterMap job.shown := by
  obtain ⟨entries, found, whole⟩ := bind_eq_ok.1 listed
  obtain ⟨records, read⟩ := exists_records_of_listAll whole
  have shown : list job.project tree = .ok ⟨records.filterMap job.shown,
      (records.filter fun record => !(job.analysis record).command.isSome).map (·.stem)⟩ :=
    list_eq_ok found read
  rw [listed, Except.ok.injEq] at shown
  exact ⟨entries, records, found, read, by rw [shown]⟩

theorem stems_shown (records : List Record) :
    (records.filterMap job.shown).map (·.1) =
      (records.filter fun record => (job.analysis record).command.isSome).map (·.stem) := by
  induction records with
  | nil => rfl
  | cons record records ih =>
    rw [List.filterMap_cons, List.filter_cons]
    cases some : (job.analysis record).command with
    | none => simpa [Job.shown, some] using ih
    | some command =>
      have named := (Binding.errorPlaces_of_command some).1
      simp [Job.shown, some, ih, named]

/-- A field as a signature shows it. -/
def fieldText (field : Field) : String :=
  if field.1.optional then "[" ++ field.1.name ++ "]" else "<" ++ field.1.name ++ ">"

/-- What a listing shows of a page that a run reads: its stem, the name in its synopsis, and the
fields of the type that the page's command file has for the parameters. -/
inductive Shows (job : Job) (destination : Destination) (tree : FileTree) : String × String → Prop
  | page {entry : Entry} {record : Record} {synopsis : String} {outcome : Synopsis.Outcome}
      {command : Binding.Command} {name : String} {doc : Option String} {fields : List Field}
      (reads : job.Reads destination tree entry record)
      (above : (Page.ofText record.text).synopsis? Manual.synopsisAbove = some synopsis)
      (parsed : Synopsis.parse synopsis = .ok outcome)
      (analyzed : (job.analysis record).command = some command)
      (request : TypeScript.CommandFile.request command = .interface name doc fields) :
      Shows job destination tree
        (entry.stem, " ".intercalate (outcome.descriptor.name :: fields.map fieldText))

theorem signature_eq (descriptor : Synopsis.Descriptor) :
    descriptor.signature = " ".intercalate (descriptor.name ::
      (TypeScript.CommandFile.requestFields descriptor).map fieldText) := by
  unfold Synopsis.Descriptor.signature TypeScript.CommandFile.requestFields
  rw [List.map_map]
  congr 2
  refine List.map_congr_left fun parameter _ => ?_
  obtain ⟨name, required⟩ := parameter
  cases required <;> rfl

theorem shows_of_shown {entry : Entry} {record : Record} {listed : String × String}
    (reads : job.Reads destination tree entry record) (stem : record.stem = entry.stem)
    (shown : job.shown record = some listed) : Shows job destination tree listed := by
  obtain ⟨command, analyzed, rfl⟩ := Option.map_eq_some_iff.1 shown
  obtain ⟨synopsis, outcome, above, parsed, same⟩ := Binding.command_of_analyze analyzed
  have descriptor : command.descriptor = outcome.descriptor := by rw [same]; rfl
  have named : command.stem = entry.stem :=
    (Binding.errorPlaces_of_command analyzed).1.trans stem
  rw [signature_eq, descriptor, named]
  exact .page reads above parsed analyzed (by rw [TypeScript.CommandFile.request, descriptor])

/-! ## Pages as they were given -/

/-- A run reads each page as it was at the start. -/
def Job.ReadsAsGiven (job : Job) (destination : Destination) (tree : FileTree) : Prop :=
  ∀ entry record, job.Reads destination tree entry record → job.readIn tree entry = .ok record

theorem readsAsGiven_preview (job : Job) (tree : FileTree) : job.ReadsAsGiven .preview tree := by
  rintro entry record ⟨done, rest, progress, delivery, -, reached, read⟩
  have kept := bindAll_preview_tree job (.start job.project) ⟨tree, []⟩ done
  rw [reached] at kept
  have same : delivery.tree = tree := kept
  rwa [same] at read

/-- What a generation has come to when some pages are bound is part of what it comes to. -/
theorem delivers_of_reached {first rest : List Entry} {progress : Progress} {delivery : Delivery}
    (found : job.entries tree = .ok (first ++ rest))
    (reached : job.bindAll .disk (.start job.project) ⟨tree, []⟩ first = ⟨delivery, .ok progress⟩) :
    Delivers delivery (job.generate tree).delivery := by
  have whole := Job.bindAll_append job .disk (.start job.project) ⟨tree, []⟩ first rest
  rw [reached] at whole
  rcases ran : job.bindAll .disk progress delivery rest with ⟨delivered, result⟩
  have before := delivers_bindAll ran
  simp only [ran] at whole
  cases result with
  | error stop =>
    have same : job.generate tree = ⟨delivered, .error stop⟩ := Job.run_of_stop found whole
    exact same ▸ before
  | ok last =>
    have same : job.generate tree = job.finish .disk delivered last := Job.run_of_end found whole
    rcases ended : job.finish .disk delivered last with ⟨final, result⟩
    rw [same, ended]
    exact before.trans (delivers_finish ended)

theorem readsAsGiven_disk (distinct : tree.HasDistinctPlaces) (keeps : job.KeepsInputs tree)
    (paths : job.KeepsPaths tree) : job.ReadsAsGiven .disk tree := by
  rintro entry record ⟨done, rest, progress, delivery, found, reached, read⟩
  have during := During.of_delivers (delivers_bindAll reached) (delivers_of_reached found reached)
  have mem : entry ∈ done ++ entry :: rest := List.mem_append_right _ List.mem_cons_self
  exact (during.read_eq distinct keeps paths found mem).symm.trans read

/-- The pages that a listing reads are those of the run, with their fates. -/
theorem told_of_readIn {records : List Record} (given : job.ReadsAsGiven destination tree)
    (told : Told job destination tree entries summary)
    (read : entries.mapM (job.readIn tree) = .ok records) {record : Record} (mem : record ∈ records) :
    ∃ entry ∈ entries, record.stem = entry.stem ∧ job.Reads destination tree entry record ∧
      Fate (job.analysis record) record.stem summary := by
  obtain ⟨entry, there, done⟩ := exists_mem_of_mapM_right read mem
  obtain ⟨other, reads, fate⟩ := told entry there
  have same := given entry other reads
  rw [done] at same
  cases same
  have stem : record.stem = entry.stem := Manual.Entry.read_stem done
  exact ⟨entry, there, stem, reads, stem ▸ fate⟩

theorem stems_of_readIn {records : List Record}
    (read : entries.mapM (job.readIn tree) = .ok records) :
    records.map (·.stem) = entries.map (·.stem) := by
  induction mapM_eq_ok.1 read with
  | nil => rfl
  | cons first rest ih =>
    rw [List.map_cons, List.map_cons, ih (mapM_eq_ok.2 rest), Manual.Entry.read_stem first]

/-- The pages without command are those that the run left out in the first phases. -/
theorem stems_without_command {records : List Record} (given : job.ReadsAsGiven destination tree)
    (told : Told job destination tree entries summary)
    (account : Account (entries.map (·.stem)) summary) (distinct : (entries.map (·.stem)).Nodup)
    (read : entries.mapM (job.readIn tree) = .ok records) :
    (records.filter fun record => !(job.analysis record).command.isSome).map (·.stem) =
      summary.skippedIn synopsisPhases := by
  have left : ∀ record ∈ records, (!(job.analysis record).command.isSome) =
      (summary.skippedIn synopsisPhases).contains record.stem := by
    intro record mem
    obtain ⟨-, -, -, -, fate⟩ := told_of_readIn given told read mem
    rw [Bool.eq_iff_iff, List.contains_iff_mem, fate.mem_skippedIn_iff account distinct,
      Bool.not_eq_true']
  have part : (summary.skippedIn synopsisPhases).Sublist (entries.map (·.stem)) :=
    List.filter_sublist.trans account.skipped
  calc (records.filter fun record => !(job.analysis record).command.isSome).map (·.stem)
      = (records.filter fun record =>
          (summary.skippedIn synopsisPhases).contains record.stem).map (·.stem) := by
        rw [List.filter_congr left]
    _ = (records.map (·.stem)).filter ((summary.skippedIn synopsisPhases).contains ·) := by
        rw [List.filter_map]
        rfl
    _ = summary.skippedIn synopsisPhases := by
        rw [stems_of_readIn read, filter_mem_of_sublist part distinct]

/-- The pages with a command are those that the run bound, or left out on binding. -/
theorem stems_with_command {records : List Record} (given : job.ReadsAsGiven destination tree)
    (told : Told job destination tree entries summary)
    (account : Account (entries.map (·.stem)) summary) (distinct : (entries.map (·.stem)).Nodup)
    (read : entries.mapM (job.readIn tree) = .ok records) :
    (records.filter fun record => (job.analysis record).command.isSome).map (·.stem) =
      (entries.map (·.stem)).filter fun stem =>
        stem ∈ summary.commands ∨ stem ∈ summary.skippedIn bindPhases := by
  have bound : ∀ record ∈ records, (job.analysis record).command.isSome =
      decide (record.stem ∈ summary.commands ∨ record.stem ∈ summary.skippedIn bindPhases) := by
    intro record mem
    obtain ⟨-, -, -, -, fate⟩ := told_of_readIn given told read mem
    rw [Bool.eq_iff_iff, decide_eq_true_eq, fate.mem_commands_or_iff account distinct]
  rw [List.filter_congr bound, ← stems_of_readIn read, List.filter_map]
  rfl

/-- **A listing agrees with a run.** Let a run end that reads each page as it was at the start, as
every preview does, and every generation that writes no file where it reads one and makes no
directory that leads to a schema. Then the listing succeeds. It leaves out the pages that the run
left out with an error about sections or the synopsis, and shows those that the run bound or left
out with an error on binding, in the order of the pages; each by the name in its synopsis and the
fields of the type of its parameters. -/
theorem list_agrees_with_run (job : Job) (tree : FileTree) :
    job.ReadsAsGiven .preview tree ∧
      (tree.HasDistinctPlaces → job.KeepsInputs tree → job.KeepsPaths tree →
        job.ReadsAsGiven .disk tree) ∧
      ∀ destination summary, job.ReadsAsGiven destination tree →
        (job.run destination tree).result = .ok summary →
        ∃ entries listing, job.entries tree = .ok entries ∧
          list job.project tree = .ok listing ∧
          listing.skipped = summary.skippedIn synopsisPhases ∧
          listing.entries.map (·.1) = (entries.map (·.stem)).filter (fun stem =>
            stem ∈ summary.commands ∨ stem ∈ summary.skippedIn bindPhases) ∧
          ∀ listed ∈ listing.entries, Shows job destination tree listed := by
  refine ⟨readsAsGiven_preview job tree, readsAsGiven_disk, ?_⟩
  intro destination summary given done
  obtain ⟨entries, found, told⟩ := Job.told_of_run done
  obtain ⟨_, found', distinct, account⟩ := Job.account_of_run done
  rw [found] at found'
  cases found'
  obtain ⟨records, read⟩ : ∃ records, entries.mapM (job.readIn tree) = .ok records := by
    refine exists_mapM_eq_ok fun entry mem => ?_
    obtain ⟨record, reads, -⟩ := told entry mem
    exact ⟨record, given entry record reads⟩
  refine ⟨entries, _, found, list_eq_ok found read, ?_, ?_, ?_⟩
  · exact stems_without_command given told account distinct read
  · rw [stems_shown]
    exact stems_with_command given told account distinct read
  · intro listed mem
    obtain ⟨record, there, shown⟩ := List.mem_filterMap.1 mem
    obtain ⟨entry, -, stem, reads, -⟩ := told_of_readIn given told read there
    exact shows_of_shown reads stem shown

end Run

/-- A listing makes no directories, so it may miss a schema that a generation finds. -/
theorem listing_misses_schema :
    (twoPages false).HasDistinctPlaces ∧
      (∃ summary, (oneSchema.run .disk (twoPages false)).result = .ok summary) ∧
      ∀ listing, list oneSchema.project (twoPages false) ≠ .ok listing := by
  refine ⟨hasDistinctPlaces_twoPages false, exists_summary_oneSchema false, ?_⟩
  have stopped : (list oneSchema.project (twoPages false)).toOption.isNone = true := by
    have found : Manual.enumerate (twoPages false) oneSchema.project.docsDir
        oneSchema.project.settings.input = _ := entries_twoPages false
    unfold list
    rw [found]
    decide +kernel
  intro listing done
  rw [done] at stopped
  cases stopped

/-- Pages with parameters, one for each way to leave a run: one is bound, one has no description, the
method of one is taken, and one has a synopsis that cannot be read. -/
def parameterPages : FileTree :=
  let page (text : String) : FileEntry := .file (.text text)
  { working := []
    entries := [
      (["doc"], .directory),
      (["doc", "lightning-a.7.md"], page "**pay** *bolt11* [*msat* [*label*]]\n\nDESCRIPTION\n"),
      (["doc", "lightning-b.7.md"], page "B\n"),
      (["doc", "lightning-c.7.md"], page "**pay** *offer*\n\nDESCRIPTION\n"),
      (["doc", "lightning-d.7.md"], page "**d\n\nDESCRIPTION\n"),
      (["doc", "schemas"], .directory),
      (["doc", "schemas", "a.schema.json"], page "true"),
      (["doc", "schemas", "b.schema.json"], page "true"),
      (["doc", "schemas", "c.schema.json"], page "true"),
      (["doc", "schemas", "d.schema.json"], page "true")] }

theorem entries_parameterPages : (Report.jobOf default).entries parameterPages =
    .ok (["a", "b", "c", "d"].map fun stem => ⟨⟨"doc/lightning-" ++ stem ++ ".7.md"⟩, stem⟩) := by
  have leads : parameterPages.locate (Report.jobOf default).project.docsDir = .ok ["doc"] := by
    decide +kernel
  exact Job.entries_of_sorted leads rfl (by decide +kernel) (by decide +kernel)

/-- A preview of these pages and their listing, and a generation that reads its pages as given. -/
theorem list_agrees_with_run_parameterPages :
    let job := Report.jobOf default
    oneSchema.ReadsAsGiven .disk (twoPages true) ∧
      ∃ summary listing, (job.run .preview parameterPages).result = .ok summary ∧
        list job.project parameterPages = .ok listing ∧
        summary.commands = ["a"] ∧ summary.skipped = ["b", "c", "d"] ∧
        listing.skipped = ["b", "d"] ∧
        listing.entries = [("a", "pay <bolt11> [msat] [label]"), ("c", "pay <offer>")] ∧
        ∀ listed ∈ listing.entries, Shows job .preview parameterPages listed := by
  intro job
  have ran : ((job.run .preview parameterPages).result.toOption.map
      fun summary => (summary.commands, summary.skipped, summary.skippedIn synopsisPhases)) =
        some (["a"], ["b", "c", "d"], ["b", "d"]) := by
    unfold Job.run
    rw [entries_parameterPages]
    decide +kernel
  have shown : (list job.project parameterPages).toOption.map (·.entries) =
      some [("a", "pay <bolt11> [msat] [label]"), ("c", "pay <offer>")] := by
    have found : Manual.enumerate parameterPages job.project.docsDir job.project.settings.input =
        _ := entries_parameterPages
    unfold list
    rw [found]
    decide +kernel
  obtain ⟨-, disk, -⟩ := list_agrees_with_run oneSchema (twoPages true)
  obtain ⟨given, -, agree⟩ := list_agrees_with_run job parameterPages
  obtain ⟨summary, done, same⟩ := map_toOption_eq_some.1 ran
  simp only [Prod.mk.injEq] at same
  obtain ⟨commands, skipped, unread⟩ := same
  obtain ⟨entries, listing, -, listed, left, -, shows⟩ := agree .preview summary given done
  obtain ⟨other, again, same⟩ := map_toOption_eq_some.1 shown
  rw [listed] at again
  cases again
  exact ⟨disk (hasDistinctPlaces_twoPages true) (keepsInputs_oneSchema true) keepsPaths_oneSchema, summary,
    listing, done, listed, commands, skipped, left.trans unread, same, shows⟩

end Bindery.Run
