import Bindery.Binding.Analysis
import Bindery.Proofs.Manual.Layout

/-!
# Pages that give back what they were laid out from

A descriptor is written as a synopsis, wrapped at any of its gaps, and laid out as a page together
with a description. Analyzing the page gives the descriptor and the lines of the description, and
says nothing about its sections or its synopsis.
-/

namespace Bindery.Binding
set_option autoImplicit false

open Manual (MarkFree Page Prose Record SynopsisLine)
open Schema (TagTable)
open Text (splitNewlines)

/-- Every line of a written descriptor may stand in a synopsis. -/
theorem written_lines {d : Synopsis.Descriptor} (writable : d.Writable)
    (free : ∀ name ∈ d.name :: (d.required ++ d.optional), MarkFree name.toList)
    (breaks : Nat → Bool) : ∀ line ∈ splitNewlines (d.written breaks).toList, SynopsisLine line := by
  obtain ⟨name, required, optional⟩ := Synopsis.Descriptor.forall_names free
  have items : ∀ item ∈ Synopsis.writtenName d.name :: d.parameterItems, SynopsisLine item :=
    Synopsis.Descriptor.forall_items (SynopsisLine.name name)
      (fun param mem => SynopsisLine.required (required param mem))
      (fun param mem => SynopsisLine.optional (optional param mem))
  rw [Synopsis.Descriptor.written, String.toList_ofList]
  exact Synopsis.lines_joinItems writable.items_oneLine items fun _ _ => SynopsisLine.join

section

variable {table : TagTable} {record : Record} {synopsis : String} {outcome : Synopsis.Outcome}
  {diagnostic : Diagnostic}

/-- What a page gives whose synopsis can be read. -/
theorem analyze_eq {locator : Manual.Locator}
    (located : (Page.ofText record.text).synopsis? locator = some synopsis)
    (read : Synopsis.parse synopsis = .ok outcome) :
    analyze table locator record =
      ⟨some (commandOf record (Page.ofText record.text) synopsis outcome.descriptor
          (Schema.normalize table record.schema).schema),
        synopsisDiagnostics record.stem outcome ++
          schemaDiagnostics record.stem (Schema.normalize table record.schema).report⟩ := by
  unfold analyze
  simp only [located, read]

/-- Nothing is said about a synopsis without irregularities that names the stem. -/
theorem synopsisDiagnostics_eq_nil {d : Synopsis.Descriptor} {stem : String} (named : d.name = stem) :
    synopsisDiagnostics stem ⟨d, []⟩ = [] := by
  simp only [synopsisDiagnostics, List.map_nil, List.nil_append, if_pos named]

/-- What is said about a schema is said of its normal form. -/
theorem phase_of_schemaDiagnostics {stem : String} {report : Schema.Report}
    (mem : diagnostic ∈ schemaDiagnostics stem report) : diagnostic.phase = "normalize" := by
  rcases List.mem_append.1 mem with mem | mem
  · obtain ⟨place, -, rfl⟩ := List.mem_map.1 mem
    rfl
  · obtain ⟨place, -, rfl⟩ := List.mem_map.1 mem
    rfl

end

/-- **A page that was laid out from a descriptor and a description gives both back**, however the
synopsis is wrapped, and nothing is said about its sections or its synopsis. -/
theorem analyze_layout (table : TagTable) (record : Record) (d : Synopsis.Descriptor)
    (breaks : Nat → Bool) (description : String) (writable : d.Writable)
    (free : ∀ name ∈ d.name :: (d.required ++ d.optional), MarkFree name.toList)
    (prose : Prose (splitNewlines description.toList)) (stem : record.stem = d.name)
    (text : record.text = Manual.layout d.name (d.written breaks) description) :
    (∃ command, (analyze table Manual.synopsisAbove record).command = some command ∧
      command.descriptor = d ∧
      command.description = (splitNewlines description.toList).map String.ofList) ∧
    ∀ diagnostic ∈ (analyze table Manual.synopsisAbove record).diagnostics,
      diagnostic.phase ≠ "sections" ∧ diagnostic.phase ≠ "synopsis" := by
  have named := writable.names d.name List.mem_cons_self
  have unmarked := free d.name List.mem_cons_self
  have each := written_lines writable free breaks
  have located : (Page.ofText record.text).synopsis? Manual.synopsisAbove =
      some (String.ofList d.line) := by
    rw [text, Manual.synopsis?_layout named unmarked each prose, writable.intercalate_lines]
  have read : Synopsis.parse (String.ofList d.line) = .ok ⟨d, []⟩ := by
    rw [Synopsis.parse, String.toList_ofList]
    exact writable.parse_line
  rw [analyze_eq located read, synopsisDiagnostics_eq_nil stem.symm, List.nil_append]
  refine ⟨⟨_, rfl, rfl, ?_⟩, ?_⟩
  · have shown := Manual.prose_layout named unmarked each prose
    rw [← text] at shown
    exact shown
  · intro diagnostic mem
    rw [phase_of_schemaDiagnostics mem]
    decide

/-- A descriptor whose names hold a backslash, a space and a letter outside of ASCII. -/
def payPart : Synopsis.Descriptor :=
  ⟨"pay\\part", ["bolt 11", "größe"], ["max\\fee", "id"]⟩

/-- The page of `payPart`, its synopsis wrapped behind the first required parameter and between the
optional ones. -/
def payPartPage : Record :=
  ⟨"pay\\part",
    Manual.layout "pay\\part" (payPart.written fun gap => gap = 1 ∨ gap = 3)
      "Pays a part.\n\nThe rest is left: see `largeur`.",
    .object [("deprecated", .bool true)], ⟨"doc/lightning-pay\\part.7.md"⟩⟩

theorem analyze_layout_payPart :
    (∃ command, (analyze .builtin Manual.synopsisAbove payPartPage).command = some command ∧
      command.descriptor = payPart ∧
      command.description = ["Pays a part.", "", "The rest is left: see `largeur`."]) ∧
    ∀ diagnostic ∈ (analyze .builtin Manual.synopsisAbove payPartPage).diagnostics,
      diagnostic.phase ≠ "sections" ∧ diagnostic.phase ≠ "synopsis" := by
  have writable : payPart.Writable := by decide +kernel
  have free : ∀ name ∈ payPart.name :: (payPart.required ++ payPart.optional),
      MarkFree name.toList := by decide +kernel
  have prose : Prose (splitNewlines "Pays a part.\n\nThe rest is left: see `largeur`.".toList) := by
    decide +kernel
  have lines : (splitNewlines "Pays a part.\n\nThe rest is left: see `largeur`.".toList).map
      String.ofList = ["Pays a part.", "", "The rest is left: see `largeur`."] := by decide +kernel
  have result := analyze_layout .builtin payPartPage payPart (fun gap => gap = 1 ∨ gap = 3)
    "Pays a part.\n\nThe rest is left: see `largeur`." writable free prose rfl rfl
  rw [lines] at result
  exact result

end Bindery.Binding
