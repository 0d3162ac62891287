import Bindery.Proofs.Run.Inputs

/-!
# Previews and second runs

Where a generation reads its pages as they were at the start, a preview shows what it writes, and a
second generation does what the first one did.
-/

namespace Bindery.Run
set_option autoImplicit false

open Manual (Entry)
open Output (GeneratedFile LastAt Reach Wrote)

/-! ## Previews -/

section Preview

variable {job : Job} {tree : FileTree} {entries rest : List Entry} {progress last : Progress}
  {delivery delivered : Delivery}

theorem Job.run_of_stop {destination : Destination} {stop : Stop}
    (found : job.entries tree = .ok entries)
    (ran : job.bindAll destination (.start job.project) ⟨tree, []⟩ entries =
      ⟨delivered, .error stop⟩) : job.run destination tree = ⟨delivered, .error stop⟩ := by
  unfold Job.run
  simp only [found, ran]

theorem Job.run_of_end {destination : Destination} (found : job.entries tree = .ok entries)
    (ran : job.bindAll destination (.start job.project) ⟨tree, []⟩ entries =
      ⟨delivered, .ok last⟩) : job.run destination tree = job.finish destination delivered last := by
  unfold Job.run
  simp only [found, ran]

theorem Job.run_eq_ok {destination : Destination} {summary : Summary}
    (done : (job.run destination tree).result = .ok summary) :
    ∃ entries last delivered, job.entries tree = .ok entries ∧
      job.bindAll destination (.start job.project) ⟨tree, []⟩ entries = ⟨delivered, .ok last⟩ ∧
      job.finish destination delivered last = ⟨(job.run destination tree).delivery, .ok summary⟩ := by
  unfold Job.run at done ⊢
  split at done
  · cases done
  · next entries found =>
    split at done
    · cases done
    · next delivered last ran =>
      refine ⟨entries, last, delivered, found, ran, ?_⟩
      rw [← done]

theorem bindAll_preview (distinct : tree.HasDistinctPlaces) (keeps : job.KeepsInputs tree)
    (paths : job.KeepsPaths tree) (found : job.entries tree = .ok entries) (part : rest ⊆ entries)
    (before : Delivers ⟨tree, []⟩ delivery)
    (ran : job.bindAll .disk progress delivery rest = ⟨delivered, .ok last⟩)
    (after : Delivers delivered (job.generate tree).delivery) :
    job.bindAll .preview progress ⟨tree, delivery.files⟩ rest =
      ⟨⟨tree, delivered.files⟩, .ok last⟩ := by
  induction rest generalizing progress delivery with
  | nil =>
    cases ran
    rfl
  | cons entry rest ih =>
    obtain ⟨mem, part⟩ := List.cons_subset.1 part
    have during := During.of_delivers before ((delivers_bindAll ran).trans after)
    have step := during.step_eq distinct keeps paths found mem progress
    unfold Job.bindAll at ran ⊢
    rw [step] at ran
    split at ran
    · cases ran
    · next next files taken =>
      split at ran
      · cases ran
      · next delivery' put =>
        have always := always_of_step taken
        have next := ih part (before.trans (delivers_putAll always put)) ran
        rw [files_of_putAll always put] at next
        simp only [taken, putAll_preview]
        exact next

/-- A generation that ends well is previewed as it is. -/
theorem preview_of_generate (distinct : tree.HasDistinctPlaces) (keeps : job.KeepsInputs tree)
    (paths : job.KeepsPaths tree) {summary : Summary}
    (done : (job.generate tree).result = .ok summary) :
    (job.preview tree).result = .ok summary ∧
      (job.preview tree).delivery.files = (job.generate tree).delivery.files := by
  obtain ⟨entries, last, delivered, found, ran, ended⟩ := Job.run_eq_ok done
  have after : Delivers delivered (job.generate tree).delivery := delivers_finish ended
  have shown := bindAll_preview distinct keeps paths found (List.Subset.refl _) (.refl _) ran after
  unfold Job.finish at ended
  split at ended
  · next final put =>
    obtain ⟨-, listed⟩ := put_disk_eq (always_client _ _) put
    injection ended with same result
    have whole : job.preview tree = job.finish .preview ⟨tree, delivered.files⟩ last :=
      Job.run_of_end found shown
    rw [whole]
    refine ⟨result, ?_⟩
    rw [show (job.generate tree).delivery = final from same.symm, listed]
    rfl
  · cases ended

end Preview

/-! ## Second runs -/

/-- A delivery of a second run that is as far as a delivery of the first run was. -/
structure Again (final delivery delivery' : Delivery) : Prop where
  files : delivery'.files = delivery.files
  wrote : Wrote final.tree delivery'.files delivery'.tree
  places : delivery'.tree.entries.map (·.1) = final.tree.entries.map (·.1)

theorem Again.alike {final delivery delivery' : Delivery} (h : Again final delivery delivery') :
    final.tree.Alike delivery'.tree :=
  h.wrote.grows.alike h.places

section Second

variable {job : Job} {tree : FileTree} {entries rest : List Entry} {progress : Progress}
  {final delivery delivered delivery' : Delivery} {worked : Bool} {file : GeneratedFile}
  {files : List GeneratedFile}

/-- A second run delivers a file as the first did, or fails where the first stopped. -/
theorem put_again (always : file.rule = .always)
    (done : delivery.put .disk file = (delivered, worked)) (after : Delivers delivered final)
    (stopped : worked = false → delivered = final) (again : Again final delivery delivery') :
    ∃ delivered', delivery'.put .disk file = (delivered', worked) ∧
      Again final delivered delivered' := by
  obtain ⟨wrote, listed⟩ := put_disk_eq always done
  cases worked with
  | true =>
    obtain ⟨place, old, found, rewrote⟩ :=
      FileTree.write_again wrote (after.grows.trans again.alike.toGrows)
    refine ⟨⟨delivery'.tree.insert place (.file (.text file.content)), delivery'.files ++ [file]⟩,
      by rw [put_disk delivery' always, rewrote], ?_, ?_, ?_⟩
    · rw [listed, again.files]
      rfl
    · exact again.wrote.trans (Wrote.of_write rewrote)
    · have free : delivery'.tree.lookup place ≠ some .directory := by simp [found]
      rw [FileTree.places_insert (FileTree.ne_nil_of_lookup free) found, again.places]
  | false =>
    have alike : delivered.tree.Alike delivery'.tree := stopped rfl ▸ again.alike
    refine ⟨delivery', by rw [put_disk delivery' always, FileTree.write_fails_again wrote alike],
      ?_, again.wrote, again.places⟩
    rw [listed, again.files]
    exact (List.append_nil _).symm

theorem putAll_again (always : ∀ file ∈ files, file.rule = .always)
    (done : delivery.putAll .disk files = (delivered, worked)) (after : Delivers delivered final)
    (stopped : worked = false → delivered = final) (again : Again final delivery delivery') :
    ∃ delivered', delivery'.putAll .disk files = (delivered', worked) ∧
      Again final delivered delivered' := by
  induction files generalizing delivery delivery' with
  | nil =>
    cases done
    exact ⟨delivery', rfl, again⟩
  | cons file files ih =>
    obtain ⟨first, others⟩ := List.forall_mem_cons.1 always
    unfold Delivery.putAll at done ⊢
    split at done
    · next put =>
      have rest := (delivers_putAll others done).trans after
      obtain ⟨next, put', again⟩ := put_again first put rest nofun again
      rw [put']
      exact ih others done again
    · next put =>
      cases done
      obtain ⟨next, put', again⟩ := put_again first put after stopped again
      rw [put']
      exact ⟨next, rfl, again⟩

/-- A second run is at a moment of the first, as far as its tree goes. -/
theorem Again.during (h : Again (job.generate tree).delivery delivery delivery')
    (after : Delivers delivery (job.generate tree).delivery) :
    During job tree ((job.generate tree).delivery.files ++ delivery'.files) delivery'.tree where
  wrote := (delivers_generate job tree).wrote.trans h.wrote
  subset := by
    rw [h.files]
    exact List.append_subset.2 ⟨List.Subset.refl _, after.subset⟩
  grows := h.alike.symm.toGrows

/-- A second run takes the pages as the first did, and stops where the first stopped. -/
theorem bindAll_again (distinct : tree.HasDistinctPlaces) (keeps : job.KeepsInputs tree)
    (paths : job.KeepsPaths tree) (found : job.entries tree = .ok entries) (part : rest ⊆ entries)
    {result : Except Stop Progress} (before : Delivers ⟨tree, []⟩ delivery)
    (ran : job.bindAll .disk progress delivery rest = ⟨delivered, result⟩)
    (after : Delivers delivered (job.generate tree).delivery)
    (stopped : ∀ stop, result = .error stop → delivered = (job.generate tree).delivery)
    (again : Again (job.generate tree).delivery delivery delivery') :
    ∃ delivered', job.bindAll .disk progress delivery' rest = ⟨delivered', result⟩ ∧
      Again (job.generate tree).delivery delivered delivered' := by
  induction rest generalizing progress delivery delivery' with
  | nil =>
    cases ran
    exact ⟨delivery', rfl, again⟩
  | cons entry rest ih =>
    obtain ⟨mem, part⟩ := List.cons_subset.1 part
    have later := (delivers_bindAll ran).trans after
    -- Both runs read the page as it was at the start, so they take the same step.
    have step := (During.of_delivers before later).step_eq distinct keeps paths found mem progress
    have step' := (again.during later).step_eq distinct keeps paths found mem progress
    unfold Job.bindAll at ran ⊢
    rw [step] at ran
    rw [step']
    split at ran
    · next stop failed =>
      cases ran
      exact ⟨delivery', rfl, again⟩
    · next next files taken =>
      have always := always_of_step taken
      split at ran
      · next put =>
        cases ran
        obtain ⟨last, put', again⟩ :=
          putAll_again always put after (fun _ => stopped _ rfl) again
        simp only [put']
        exact ⟨last, rfl, again⟩
      · next put =>
        have rest := (delivers_bindAll ran).trans after
        obtain ⟨next, put', again⟩ :=
          putAll_again always put rest (fun same => by cases same) again
        simp only [put']
        exact ih part (before.trans (delivers_putAll always put)) ran again

theorem finish_again {result : Except Stop Summary}
    (ran : job.finish .disk delivery progress = ⟨final, result⟩)
    (again : Again final delivery delivery') :
    ∃ delivered', job.finish .disk delivery' progress = ⟨delivered', result⟩ ∧
      Again final final delivered' := by
  unfold Job.finish at ran ⊢
  split at ran
  all_goals
    next put =>
    cases ran
    obtain ⟨last, put', again⟩ := put_again (always_client _ _) put (.refl _) (fun _ => rfl) again
    rw [put']
    exact ⟨last, rfl, again⟩

/-- A second run that is as far as the first ended has done nothing. -/
theorem Again.eq (distinct : tree.HasDistinctPlaces)
    (h : Again (job.generate tree).delivery (job.generate tree).delivery delivery') :
    delivery' = (job.generate tree).delivery := by
  have first := (delivers_generate job tree).wrote
  have tree_eq : delivery'.tree = (job.generate tree).delivery.tree := by
    refine FileTree.eq_of_lookup (first.distinct distinct) h.alike.working h.places ?_
    intro place
    -- Where both runs wrote, the last file of either stands, and it is the same one.
    by_cases reach : Reach delivery'.files delivery'.tree place
    · obtain ⟨file, last⟩ := LastAt.exists_of_reach reach
      have last' := last.congr fun file _ => (h.alike.locate_eq file.path).symm
      rw [h.wrote.last last, first.last (h.files ▸ last')]
    · rcases h.wrote.others reach with same | ⟨vacant, made⟩
      · exact same
      · rw [h.alike.nothing vacant] at made
        cases made
  calc delivery' = ⟨delivery'.tree, delivery'.files⟩ := rfl
    _ = ⟨(job.generate tree).delivery.tree, (job.generate tree).delivery.files⟩ := by
      rw [tree_eq, h.files]
    _ = (job.generate tree).delivery := rfl

/-- A second generation does what the first did, whether that ended well or stopped. -/
theorem generate_again (distinct : tree.HasDistinctPlaces) (keeps : job.KeepsInputs tree)
    (paths : job.KeepsPaths tree) :
    job.generate (job.generate tree).delivery.tree = job.generate tree := by
  cases found : job.entries tree with
  | error fault =>
    have stays : (job.generate tree).delivery.tree = tree := by
      unfold Job.generate Job.run
      rw [found]
    rw [stays]
  | ok entries =>
    have ended := During.of_delivers (delivers_generate job tree) (.refl _)
    have found' := ended.entries_eq distinct keeps found
    have start : Again (job.generate tree).delivery ⟨tree, []⟩
        ⟨(job.generate tree).delivery.tree, []⟩ := ⟨rfl, .refl _, rfl⟩
    rcases ran : job.bindAll .disk (.start job.project) ⟨tree, []⟩ entries with
      ⟨delivered, result⟩
    cases result with
    | error stop =>
      have whole : job.generate tree = ⟨delivered, .error stop⟩ := Job.run_of_stop found ran
      have last : delivered = (job.generate tree).delivery := by rw [whole]
      obtain ⟨delivered', ran', again⟩ := bindAll_again distinct keeps paths found
        (List.Subset.refl _) (.refl _) ran (last ▸ .refl _) (fun _ _ => last) start
      have second : job.generate (job.generate tree).delivery.tree = ⟨delivered', .error stop⟩ :=
        Job.run_of_stop found' ran'
      rw [last] at again
      rw [second, again.eq distinct, whole]
    | ok progress =>
      rcases ended : job.finish .disk delivered progress with ⟨final, result⟩
      have whole : job.generate tree = ⟨final, result⟩ := (Job.run_of_end found ran).trans ended
      have last : final = (job.generate tree).delivery := by rw [whole]
      obtain ⟨delivered', ran', again⟩ := bindAll_again distinct keeps paths found
        (List.Subset.refl _) (.refl _) ran (last ▸ delivers_finish ended) nofun start
      rw [last] at ended
      obtain ⟨final', ended', again⟩ := finish_again ended again
      have second : job.generate (job.generate tree).delivery.tree = ⟨final', result⟩ :=
        (Job.run_of_end found' ran').trans ended'
      rw [second, again.eq distinct, whole]

end Second

/-- **A preview shows what a generation writes.** A preview changes nothing, and a generation
nothing but its files, besides making directories where nothing was. Let the generation write no
file where it reads one, and make no directory that leads to a schema. Then a second generation
ends as the first did, in the same tree; and if the generation ends well, the preview had the same
summary and the same files, and where a file's path leads, the last of them that leads there
stands. -/
theorem preview_shows_generation (job : Job) (tree : FileTree) :
    (job.preview tree).delivery.tree = tree ∧
      (∀ place,
        ¬Reach (job.generate tree).delivery.files (job.generate tree).delivery.tree place →
          tree.Spares (job.generate tree).delivery.tree place) ∧
      (tree.HasDistinctPlaces → job.KeepsInputs tree → job.KeepsPaths tree →
        job.generate (job.generate tree).delivery.tree = job.generate tree ∧
          ∀ summary, (job.generate tree).result = .ok summary →
            (job.preview tree).result = .ok summary ∧
              (job.preview tree).delivery.files = (job.generate tree).delivery.files ∧
              ∀ file ∈ (job.preview tree).delivery.files, ∃ place last,
                (job.generate tree).delivery.tree.locate file.path = .ok place ∧
                  LastAt (job.generate tree).delivery.tree place
                    (job.preview tree).delivery.files last ∧
                  (job.generate tree).delivery.tree.lookup place =
                    some (.file (.text last.content))) := by
  have wrote := (delivers_generate job tree).wrote
  refine ⟨preview_tree job tree, fun place apart => wrote.others apart, ?_⟩
  intro distinct keeps paths
  refine ⟨generate_again distinct keeps paths, fun summary done => ?_⟩
  obtain ⟨shown, same⟩ := preview_of_generate distinct keeps paths done
  refine ⟨shown, same, fun file mem => ?_⟩
  rw [same] at mem ⊢
  obtain ⟨place, leads, -⟩ := wrote.leads file mem
  obtain ⟨last, there⟩ := LastAt.exists_of_reach ⟨file, mem, leads⟩
  exact ⟨place, last, leads, there, wrote.last there⟩

/-! ## One schema for all pages -/

/-- A job whose pages have one schema, by way of a directory for each. -/
def oneSchema : Job where
  project := .inDirectory ⟨""⟩ { (default : Project.Settings) with
    input := { Project.InputSettings.default with schemaSuffix := "/../common.json" } }
  outputDir := ⟨"doc/schemas/b"⟩

/-- Two pages and their schema. The second page's directory may be missing, until the files of the
first page are written into it. -/
def twoPages (made : Bool) : FileTree where
  working := []
  entries := [
    (["doc"], .directory),
    (["doc", "lightning-a.7.md"], .file (.text "**a**\n\nDESCRIPTION\n")),
    (["doc", "lightning-b.7.md"], .file (.text "**b**\n\nDESCRIPTION\n")),
    (["doc", "schemas"], .directory),
    (["doc", "schemas", "a"], .directory),
    (["doc", "schemas", "common.json"], .file (.text "true"))] ++
      if made then [(["doc", "schemas", "b"], .directory)] else []

theorem hasDistinctPlaces_twoPages (made : Bool) : (twoPages made).HasDistinctPlaces := by
  unfold FileTree.HasDistinctPlaces
  cases made <;> decide

theorem entries_twoPages (made : Bool) : oneSchema.entries (twoPages made) =
    .ok [⟨⟨"doc/lightning-a.7.md"⟩, "a"⟩, ⟨⟨"doc/lightning-b.7.md"⟩, "b"⟩] := by
  have leads : (twoPages made).locate oneSchema.project.docsDir = .ok ["doc"] := by
    cases made <;> decide +kernel
  have directory : (twoPages made).lookup ["doc"] = some .directory := by cases made <;> rfl
  refine (Manual.enumerate_of_sorted leads directory ?_).trans ?_
  all_goals cases made <;> decide +kernel

/-- A generation finds the schema of the second page, as its directory is there by then, and writes
three files. -/
theorem run_oneSchema (made : Bool) :
    (oneSchema.generate (twoPages made)).result.toOption.isSome = true ∧
      (oneSchema.generate (twoPages made)).delivery.files.map (fun file =>
        ((oneSchema.generate (twoPages made)).delivery.tree.locate file.path).toOption) =
          ["a.ts", "b.ts", "main.ts"].map fun name => some ["doc", "schemas", "b", name] := by
  unfold Job.generate Job.run
  rw [entries_twoPages]
  cases made <;> decide +kernel

/-- Those of the files that are read are not as deep. -/
theorem length_of_input {made : Bool} {place : Place}
    (input : oneSchema.IsInput (twoPages made) place) : place.length ≤ 3 := by
  have short {path : Path} (mem : path ∈ ["doc/lightning-a.7.md", "doc/lightning-b.7.md",
      "doc/schemas/a/../common.json", "doc/schemas/b/../common.json"].map Path.mk)
      (leads : (twoPages made).locate path = .ok place) : place.length ≤ 3 := by
    have all : ∀ path ∈ ["doc/lightning-a.7.md", "doc/lightning-b.7.md",
        "doc/schemas/a/../common.json", "doc/schemas/b/../common.json"].map Path.mk,
        ((twoPages made).locate path).toOption.all (·.length ≤ 3) = true := by
      cases made <;> decide +kernel
    have here := all path mem
    rw [leads] at here
    simpa [Except.toOption] using here
  cases input with
  | @page entries entry _ found mem leads =>
    rw [entries_twoPages] at found
    cases found
    refine short ?_ leads
    simp only [List.mem_cons, List.not_mem_nil, or_false] at mem
    rcases mem with rfl | rfl <;> decide +kernel
  | @schema entries entry _ found mem leads =>
    rw [entries_twoPages] at found
    cases found
    refine short ?_ leads
    simp only [List.mem_cons, List.not_mem_nil, or_false] at mem
    rcases mem with rfl | rfl <;> decide +kernel
  | @named docs name leads called =>
    have docs_eq : (twoPages made).locate oneSchema.project.docsDir = .ok ["doc"] := by
      cases made <;> decide +kernel
    rw [docs_eq] at leads
    cases leads
    exact Nat.le_succ 2

theorem keepsInputs_oneSchema (made : Bool) : oneSchema.KeepsInputs (twoPages made) := by
  rintro place ⟨file, mem, leads⟩ input
  have written := List.mem_map_of_mem (f := fun file : GeneratedFile =>
    ((oneSchema.generate (twoPages made)).delivery.tree.locate file.path).toOption) mem
  rw [(run_oneSchema made).2, leads] at written
  obtain ⟨name, -, same⟩ := List.mem_map.1 written
  cases same
  exact absurd (length_of_input input) (Nat.not_succ_le_self 3)

theorem exists_summary_oneSchema (made : Bool) :
    ∃ summary, (oneSchema.generate (twoPages made)).result = .ok summary := by
  have ends := (run_oneSchema made).1
  cases done : (oneSchema.generate (twoPages made)).result with
  | error stop =>
    rw [done] at ends
    cases ends
  | ok summary => exact ⟨summary, rfl⟩

/-- A preview makes no directories, so it may miss a schema that a generation finds. -/
theorem preview_misses_schema :
    (twoPages false).HasDistinctPlaces ∧ oneSchema.KeepsInputs (twoPages false) ∧
      (∃ summary, (oneSchema.generate (twoPages false)).result = .ok summary) ∧
      ∀ summary, (oneSchema.preview (twoPages false)).result ≠ .ok summary := by
  refine ⟨hasDistinctPlaces_twoPages false, keepsInputs_oneSchema false, ?_, ?_⟩
  · exact exists_summary_oneSchema false
  · have stopped : (oneSchema.preview (twoPages false)).result.toOption.isNone = true := by
      unfold Job.preview Job.run
      rw [entries_twoPages]
      decide +kernel
    intro summary done
    rw [done] at stopped
    cases stopped

theorem keepsPaths_oneSchema : oneSchema.KeepsPaths (twoPages true) := by
  intro entries found entry mem place leads
  rw [entries_twoPages] at found
  cases found
  have there : (twoPages true).locate (oneSchema.schemaPath entry) =
      .ok ["doc", "schemas", "common.json"] := by
    simp only [List.mem_cons, List.not_mem_nil, or_false] at mem
    rcases mem with rfl | rfl <;> decide +kernel
  rw [(delivers_generate oneSchema (twoPages true)).grows.locate there] at leads
  cases leads
  exact there

/-- With the directory there from the start, the preview finds it as well. -/
theorem preview_shows_generation_twoPages :
    (twoPages true).HasDistinctPlaces ∧ oneSchema.KeepsInputs (twoPages true) ∧
      oneSchema.KeepsPaths (twoPages true) ∧
      oneSchema.generate (oneSchema.generate (twoPages true)).delivery.tree =
        oneSchema.generate (twoPages true) ∧
      ∃ summary, (oneSchema.generate (twoPages true)).result = .ok summary ∧
        (oneSchema.preview (twoPages true)).result = .ok summary ∧
        (oneSchema.preview (twoPages true)).delivery.files =
          (oneSchema.generate (twoPages true)).delivery.files := by
  obtain ⟨summary, done⟩ := exists_summary_oneSchema true
  obtain ⟨-, -, agree⟩ := preview_shows_generation oneSchema (twoPages true)
  obtain ⟨again, shown⟩ :=
    agree (hasDistinctPlaces_twoPages true) (keepsInputs_oneSchema true) keepsPaths_oneSchema
  obtain ⟨shown, same, -⟩ := shown summary done
  exact ⟨hasDistinctPlaces_twoPages true, keepsInputs_oneSchema true, keepsPaths_oneSchema, again,
    summary, done, shown, same⟩

end Bindery.Run
