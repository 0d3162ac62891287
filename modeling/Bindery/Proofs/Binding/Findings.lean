import Bindery.Binding.Analysis

/-!
# Errors among findings

A page that gives no command is reported by one error, at its stem. A page that gives one is
reported by none.
-/

namespace Bindery.Binding
set_option autoImplicit false

open Manual (Locator Page Record)
open Schema (TagTable)

/-- Where the errors among findings are. -/
def errorPlaces (found : List Diagnostic) : List (Option String) :=
  (found.filter Diagnostic.isError).map (·.location)

section

variable {found more : List Diagnostic} {stem : String}

@[simp]
theorem errorPlaces_append : errorPlaces (found ++ more) = errorPlaces found ++ errorPlaces more := by
  simp [errorPlaces]

theorem errorPlaces_eq_nil_iff : errorPlaces found = [] ↔ ∀ d ∈ found, d.isError = false := by
  simp [errorPlaces]

theorem hasErrors_iff : hasErrors found = true ↔ errorPlaces found ≠ [] := by
  unfold hasErrors errorPlaces
  rw [List.any_eq_true]
  simp

theorem errorPlaces_synopsisDiagnostics (outcome : Synopsis.Outcome) :
    errorPlaces (synopsisDiagnostics stem outcome) = [] := by
  rw [errorPlaces_eq_nil_iff]
  intro d mem
  unfold synopsisDiagnostics at mem
  rcases List.mem_append.1 mem with warned | named
  · obtain ⟨w, -, rfl⟩ := List.mem_map.1 warned
    rfl
  · split at named
    · cases named
    · rw [List.mem_singleton.1 named]
      rfl

theorem errorPlaces_schemaDiagnostics (report : Schema.Report) :
    errorPlaces (schemaDiagnostics stem report) = [] := by
  rw [errorPlaces_eq_nil_iff]
  intro d mem
  unfold schemaDiagnostics at mem
  rcases List.mem_append.1 mem with pruned | lossy
  · obtain ⟨place, -, rfl⟩ := List.mem_map.1 pruned
    rfl
  · obtain ⟨place, -, rfl⟩ := List.mem_map.1 lossy
    rfl

end

section

variable {table : TagTable} {locator : Locator} {record : Record}

/-- A page without command is reported by one error, at its stem. -/
theorem errorPlaces_of_no_command (none : (analyze table locator record).command = none) :
    errorPlaces (analyze table locator record).diagnostics = [some record.stem] := by
  unfold analyze at none ⊢
  simp only at none ⊢
  split
  · rfl
  · next located =>
    rw [located] at none
    simp only at none
    split
    · rfl
    · next read =>
      rw [read] at none
      cases none

/-- The command of a page is made of a synopsis that was read. -/
theorem command_of_analyze {command : Command}
    (some : (analyze table locator record).command = some command) :
    ∃ synopsis outcome, (Page.ofText record.text).synopsis? locator = .some synopsis ∧
      Synopsis.parse synopsis = .ok outcome ∧
      command = commandOf record (Page.ofText record.text) synopsis outcome.descriptor
        (Schema.normalize table record.schema).schema := by
  unfold analyze at some
  simp only at some
  split at some
  · cases some
  · next synopsis located =>
    split at some
    · cases some
    · next outcome read =>
      cases some
      exact ⟨synopsis, outcome, located, read, rfl⟩

/-- What is found about a page with a command is found about its synopsis and its schema. -/
theorem diagnostics_of_command {command : Command}
    (some : (analyze table locator record).command = some command) :
    ∃ outcome, command.descriptor = outcome.descriptor ∧
      (analyze table locator record).diagnostics = synopsisDiagnostics record.stem outcome ++
        schemaDiagnostics record.stem (Schema.normalize table record.schema).report := by
  obtain ⟨synopsis, outcome, located, read, rfl⟩ := command_of_analyze some
  refine ⟨outcome, rfl, ?_⟩
  simp only [analyze, located, read]

/-- A page with a command is reported by no error, and the command has its stem. -/
theorem errorPlaces_of_command {command : Command}
    (some : (analyze table locator record).command = some command) :
    command.stem = record.stem ∧ errorPlaces (analyze table locator record).diagnostics = [] := by
  obtain ⟨outcome, -, found⟩ := diagnostics_of_command some
  obtain ⟨synopsis, _, -, -, rfl⟩ := command_of_analyze some
  refine ⟨rfl, ?_⟩
  rw [found, errorPlaces_append, errorPlaces_synopsisDiagnostics, errorPlaces_schemaDiagnostics]
  rfl

end

end Bindery.Binding
