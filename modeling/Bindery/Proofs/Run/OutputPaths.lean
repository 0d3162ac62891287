import Bindery.Proofs.FileTree.Components
import Bindery.Proofs.Manual.Pages
import Bindery.Proofs.Run.Account
import Bindery.Proofs.Run.Course
import Bindery.Report.OfRun

/-!
# Where the files of a run go

The files of commands and the schemas that are written beside them never share a path, as stems are
distinct and hold no slash. The client's file has a path of its own unless the setting of its name
leads to one of these.
-/

namespace Bindery
set_option autoImplicit false

open Bindery.Path (IsName)

/-! ## Names with an extension -/

/-- Two paths are different, by their components. -/
def Path.Apart (p q : Path) : Prop :=
  p.same q = false

instance : DecidableRel Path.Apart :=
  fun p q => inferInstanceAs (Decidable (p.same q = false))

theorem Path.apart_join {base other : Path} {name last : String} (isName : IsName name)
    (isLast : IsName last) (apart : name ≠ last) : (base.join ⟨name⟩).Apart (other.join ⟨last⟩) :=
  Bool.eq_false_iff.2 fun same => apart ((same_join_iff isName isLast).1 same).2

namespace Run

/-- How the names of a command's files end. -/
def extensions : List String := [".ts", ".json"]

section

variable {stem other first last : String}

theorem isName_extension (noSlash : '/' ∉ stem.toList) (mem : first ∈ extensions) :
    IsName (stem ++ first) := by
  have all : ∀ extension ∈ extensions, '/' ∉ extension.toList ∧ 2 < extension.length := by decide
  exact .of_extension noSlash (all first mem).1 (all first mem).2

/-- A name with one of these extensions is made of one stem. -/
theorem append_extension_inj (mem : first ∈ extensions) (mem' : last ∈ extensions)
    (same : stem ++ first = other ++ last) : stem = other ∧ first = last := by
  have ends := congrArg (·.toList.getLast?) same
  rcases List.mem_pair.1 mem with rfl | rfl <;> rcases List.mem_pair.1 mem' with rfl | rfl
  · exact ⟨(String.append_left_inj _).1 same, rfl⟩
  · simp at ends
  · simp at ends
  · exact ⟨(String.append_left_inj _).1 same, rfl⟩

end

/-! ## The paths of a job -/

namespace Job

/-- The directories that the files of a command go to, and how their names end there. -/
def homes (job : Job) : List (Path × String) :=
  (job.outputDir, ".ts") :: (job.project.debugDir.map (·, ".json")).toList

/-- Where the files of a command go. -/
def commandPaths (job : Job) (stem : String) : List Path :=
  job.homes.map fun home => home.1.join ⟨stem ++ home.2⟩

/-- Where the client's file goes. -/
def clientPath (job : Job) : Path :=
  job.outputDir.join ⟨job.project.settings.output.clientFile⟩

variable {job : Job}

theorem mem_homes {home : Path × String} : home ∈ job.homes ↔
    home = (job.outputDir, ".ts") ∨ ∃ dir, job.project.debugDir = some dir ∧ home = (dir, ".json") := by
  unfold homes
  rw [List.mem_cons, Option.mem_toList, Option.map_eq_some_iff]
  exact or_congr_right (exists_congr fun dir => and_congr_right fun _ => eq_comm)

theorem extension_of_mem_homes {home : Path × String} (mem : home ∈ job.homes) :
    home.2 ∈ extensions := by
  rcases mem_homes.1 mem with rfl | ⟨dir, -, rfl⟩
  · exact List.mem_cons_self
  · exact List.mem_cons_of_mem _ List.mem_cons_self

theorem pairwise_homes (job : Job) : job.homes.Pairwise fun a b => a.2 ≠ b.2 := by
  unfold homes
  cases job.project.debugDir with
  | none => exact List.pairwise_singleton _ _
  | some dir =>
    have apart : ".ts" ≠ ".json" := by decide
    exact List.pairwise_pair.2 apart

/-- The files of commands with distinct stems have paths of their own. -/
theorem pairwise_commandPaths (job : Job) {stems : List String} (distinct : stems.Nodup)
    (noSlash : ∀ stem ∈ stems, '/' ∉ stem.toList) :
    (stems.flatMap job.commandPaths).Pairwise Path.Apart := by
  refine List.pairwise_flatMap.2 ⟨fun stem mem => List.pairwise_map.2 ?_, ?_⟩
  · refine job.pairwise_homes.imp_of_mem fun here there apart => ?_
    have here := extension_of_mem_homes here
    have there := extension_of_mem_homes there
    exact Path.apart_join (isName_extension (noSlash stem mem) here)
      (isName_extension (noSlash stem mem) there)
      fun same => apart (append_extension_inj here there same).2
  · refine distinct.imp_of_mem fun {a b} memA memB apart => ?_
    unfold commandPaths
    rw [List.forall_mem_map]
    intro home here
    rw [List.forall_mem_map]
    intro other there
    have here := extension_of_mem_homes here
    have there := extension_of_mem_homes there
    exact Path.apart_join (isName_extension (noSlash a memA) here)
      (isName_extension (noSlash b memB) there)
      fun same => apart (append_extension_inj here there same).1

/-- A client's name that is only a name leads to the file of a command if that has its name, and to
a schema if that has its name and schemas are written to the directory of the client. -/
theorem apart_clientPath_iff (job : Job) {stems : List String}
    (noSlash : ∀ stem ∈ stems, '/' ∉ stem.toList)
    (isName : IsName job.project.settings.output.clientFile)
    (apart : ∀ stem ∈ stems, stem ++ ".ts" ≠ job.project.settings.output.clientFile) :
    (∀ path ∈ stems.flatMap job.commandPaths, path.Apart job.clientPath) ↔
      ∀ dir, job.project.debugDir = some dir → dir.same job.outputDir = true →
        ∀ stem ∈ stems, stem ++ ".json" ≠ job.project.settings.output.clientFile := by
  have same_iff {base : Path} {extension stem : String} (mem : stem ∈ stems)
      (ends : extension ∈ extensions) :
      (base.join ⟨stem ++ extension⟩).same job.clientPath = true ↔
        base.same job.outputDir = true ∧
          stem ++ extension = job.project.settings.output.clientFile :=
    Path.same_join_iff (isName_extension (noSlash stem mem) ends) isName
  constructor
  · intro all dir debug same stem mem equal
    have home : (dir, ".json") ∈ job.homes := mem_homes.2 (.inr ⟨dir, debug, rfl⟩)
    have path := all _ (List.mem_flatMap.2 ⟨stem, mem, List.mem_map_of_mem home⟩)
    exact Bool.eq_false_iff.1 path
      ((same_iff mem (extension_of_mem_homes home)).2 ⟨same, equal⟩)
  · intro free path there
    obtain ⟨stem, mem, there⟩ := List.mem_flatMap.1 there
    obtain ⟨home, here, rfl⟩ := List.mem_map.1 there
    refine Bool.eq_false_iff.2 fun same => ?_
    obtain ⟨bases, equal⟩ := (same_iff mem (extension_of_mem_homes here)).1 same
    rcases mem_homes.1 here with rfl | ⟨dir, debug, rfl⟩
    · exact apart stem mem equal
    · exact free dir debug bases stem mem equal

end Job

/-! ## The paths of a run -/

variable {job : Job} {destination : Destination} {tree : FileTree} {summary : Summary}

namespace Bound

theorem slash_not_mem_stem (bound : Bound job destination tree) :
    '/' ∉ bound.command.stem.toList := by
  obtain ⟨_, _, _, _, found, -, -⟩ := bound.read
  rw [bound.stem_eq]
  exact Manual.slash_not_mem_stem found (List.mem_append_right _ List.mem_cons_self)

theorem paths_files (bound : Bound job destination tree) :
    bound.files.map (·.path) = job.commandPaths bound.command.stem := by
  unfold files Job.commandFiles Job.commandPaths Job.homes
  cases job.project.debugDir with
  | none => rfl
  | some dir => rfl

end Bound

/-- The stems of the commands of a run are distinct, hold no slash, and are not the client's. -/
theorem stems_of_run (done : (job.run destination tree).result = .ok summary) :
    summary.commands.Nodup ∧ (∀ stem ∈ summary.commands, '/' ∉ stem.toList) ∧
      (∀ stem ∈ summary.commands, stem ++ ".ts" ≠ job.project.settings.output.clientFile) ∧
      (job.run destination tree).delivery.files.map (·.path) =
        summary.commands.flatMap job.commandPaths ++ [job.clientPath] := by
  obtain ⟨entries, -, distinct, account⟩ := Job.account_of_run done
  obtain ⟨bounds, last, files, tally, rfl, listed⟩ := Job.tally_of_run done
  refine ⟨account.commands.nodup distinct, ?_, ?_, ?_⟩
  · rw [tally.commands, List.forall_mem_map]
    exact fun bound _ => bound.slash_not_mem_stem
  · rw [tally.commands, List.forall_mem_map]
    exact fun bound _ => bound.apart
  · rw [listed, tally.files, tally.commands, tally.client, List.map_append, List.map_flatMap,
      List.flatMap_map]
    simp only [Bound.paths_files]
    rfl

/-- **Where the files of a run go.** The paths of a run are those of its commands, in their order,
and that of the client. Those of the commands are all different. The client's is different from them
as well if the setting of its name is only a name, unless it is that of a schema and schemas are
written to the client's directory; if the setting is another path, it depends on where that leads. -/
theorem output_paths_apart_iff (job : Job) (destination : Destination) (tree : FileTree)
    {summary : Summary} (done : (job.run destination tree).result = .ok summary) :
    (job.run destination tree).delivery.files.map (·.path) =
        summary.commands.flatMap job.commandPaths ++ [job.clientPath] ∧
      (summary.commands.flatMap job.commandPaths).Pairwise Path.Apart ∧
      (((job.run destination tree).delivery.files.map (·.path)).Pairwise Path.Apart ↔
        ∀ path ∈ summary.commands.flatMap job.commandPaths, path.Apart job.clientPath) ∧
      (IsName job.project.settings.output.clientFile →
        (((job.run destination tree).delivery.files.map (·.path)).Pairwise Path.Apart ↔
          ∀ dir, job.project.debugDir = some dir → dir.same job.outputDir = true →
            ∀ stem ∈ summary.commands,
              stem ++ ".json" ≠ job.project.settings.output.clientFile)) := by
  obtain ⟨distinct, noSlash, apart, paths⟩ := stems_of_run done
  have own := job.pairwise_commandPaths distinct noSlash
  have all : ((job.run destination tree).delivery.files.map (·.path)).Pairwise Path.Apart ↔
      ∀ path ∈ summary.commands.flatMap job.commandPaths, path.Apart job.clientPath := by
    rw [paths, List.pairwise_append]
    simp only [own, List.pairwise_singleton, List.mem_singleton, forall_eq, true_and]
  exact ⟨paths, own, all, fun isName => all.trans (job.apart_clientPath_iff noSlash isName apart)⟩

/-- A single page. -/
def betaPage : FileTree where
  working := []
  entries := [
    (["doc"], .directory),
    (["doc", "lightning-beta.7.md"], .file (.text "**beta**\n\nDESCRIPTION\n")),
    (["doc", "schemas"], .directory),
    (["doc", "schemas", "beta.schema.json"], .file (.text "true"))]

/-- The job of a project with this output section. -/
def jobWith (output : Project.OutputSettings) : Job :=
  Report.jobOf (.inDirectory ⟨""⟩ { (default : Project.Settings) with output := output })

theorem entries_betaPage (output : Project.OutputSettings) :
    (jobWith output).entries betaPage = .ok [⟨⟨"doc/lightning-beta.7.md"⟩, "beta"⟩] := by
  have standard : (jobWith output).entries betaPage = (Report.jobOf default).entries betaPage := rfl
  have leads : betaPage.locate (Report.jobOf default).project.docsDir = .ok ["doc"] := by
    decide +kernel
  rw [standard]
  exact Job.entries_of_sorted leads rfl (by decide +kernel) (by decide +kernel)

/-- Schemas beside the generated code, which the client does not touch. -/
theorem output_paths_apart_iff_besideCode :
    let job := jobWith { Project.OutputSettings.default with debugDir := some ⟨"generated"⟩ }
    ∃ summary, (job.run .preview betaPage).result = .ok summary ∧
      summary.commands = ["beta"] ∧
      ((job.run .preview betaPage).delivery.files.map (·.path)).Pairwise Path.Apart := by
  intro job
  have ran : ((job.run .preview betaPage).result.toOption.map (·.commands)) = some ["beta"] := by
    unfold Job.run
    rw [entries_betaPage]
    decide +kernel
  obtain ⟨summary, done, commands⟩ := map_toOption_eq_some.1 ran
  obtain ⟨-, -, -, plain⟩ := output_paths_apart_iff job .preview betaPage done
  refine ⟨summary, done, commands,
    (plain (by decide +kernel)).2 fun dir debug same => ?_⟩
  rw [commands]
  decide +kernel

/-- A client's file that is written as a path takes the place of a command's. -/
theorem client_overwrites_command :
    ∃ output, (Project.parseSettings "[output]\nclient_file = \"./beta.ts\"\n").toOption =
        some { (default : Project.Settings) with output := output } ∧
      (∃ summary, ((jobWith output).run .disk betaPage).result = .ok summary) ∧
      ¬(((jobWith output).run .disk betaPage).delivery.files.map (·.path)).Pairwise Path.Apart := by
  let output := { Project.OutputSettings.default with clientFile := "./beta.ts" }
  have ran : (((jobWith output).run .disk betaPage).result.toOption.map (·.commands)) =
      some ["beta"] := by
    unfold Job.run
    rw [entries_betaPage]
    decide +kernel
  obtain ⟨summary, done, commands⟩ := map_toOption_eq_some.1 ran
  obtain ⟨-, -, -, paths⟩ := stems_of_run done
  refine ⟨output, by decide +kernel, ⟨summary, done⟩, ?_⟩
  rw [paths, commands]
  decide +kernel

end Run

end Bindery
