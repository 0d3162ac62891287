import Bindery.Proofs.Synopsis.Irregularities
import Bindery.Proofs.Synopsis.Refusals
import Bindery.Proofs.Synopsis.Tiling

/-!
# Positions that are reported

Every place that a warning or an error names is a byte range of the line. All of them are put together
from the token that is read and from opening marks that were read before it, so they end where that
token ends, and they can only grow from one warning to the next.
-/

namespace Bindery.Synopsis
set_option autoImplicit false

open Bindery.Text (Span)

variable {p q r : Progress} {token : Token} {tokens : List Token}

/-! ## Where spans come from -/

/-- The opening mark of the name or parameter the reader is in. -/
def Place.opening? : Place → Option Span
  | .inName opening _ | .inParameter opening _ => some opening
  | .beforeName | .body => none

/-- The opening marks and brackets that are not closed yet. -/
def Progress.openings (p : Progress) : List Span :=
  p.place.opening?.toList ++ p.groups.map (·.opening)

/-- What the second reader has found more than the first is all at one place. -/
def Notes (span : Span) (p q : Progress) : Prop :=
  ∃ noted, q.findings = p.findings ++ noted ∧ ∀ finding ∈ noted, finding.2 = span

section Notes

variable {span : Span}

theorem notes_nothing (same : q.findings = p.findings) : Notes span p q :=
  ⟨[], by rw [same, List.append_nil], by simp⟩

theorem Notes.trans (first : Notes span p q) (second : Notes span q r) : Notes span p r := by
  obtain ⟨noted, findings, here⟩ := first
  obtain ⟨more, findings', here'⟩ := second
  refine ⟨noted ++ more, ?_, ?_⟩
  · rw [findings', findings, List.append_assoc]
  · exact List.forall_mem_append.2 ⟨here, here'⟩

theorem notes_warn (kind : Irregularity) : Notes span p (p.warn kind span) :=
  ⟨[(kind, span)], rfl, by simp⟩

theorem notes_stray (content : List Char) : Notes span p (p.stray content span) := by
  rcases Progress.stray_eq p content span with same | warned
  · rw [same]
    exact notes_nothing rfl
  · rw [warned]
    exact notes_warn _

theorem notes_addRequired (name : String) : Notes span p (p.addRequired name span) := by
  unfold Progress.addRequired
  split
  · exact notes_warn _
  · split
    · exact (notes_warn .overlappingParameter).trans (notes_nothing rfl)
    · exact notes_nothing rfl

theorem notes_addOptional (name : String) : Notes span p (p.addOptional name span) := by
  unfold Progress.addOptional
  split
  · exact notes_warn _
  · split
    · exact notes_warn _
    · exact notes_nothing rfl

theorem notes_addParameter (name : String) : Notes span p (p.addParameter name span) := by
  unfold Progress.addParameter
  split
  · refine Notes.trans ?_ (notes_addRequired name)
    split
    · exact notes_warn _
    · exact notes_nothing rfl
  · split
    · exact notes_warn _
    · exact (notes_nothing rfl).trans (notes_addOptional name)

theorem notes_leave (group : Group) (outer : List Group) :
    Notes (group.opening.through span) p (p.leave group outer span) := by
  unfold Progress.leave
  split
  · exact notes_nothing rfl
  · exact (notes_nothing rfl).trans (notes_warn _)

end Notes

/-- The token itself, or what is between an opening mark and it. -/
def Progress.Reports (p : Progress) (token : Token) (span : Span) : Prop :=
  span = token.span ∨ ∃ opening ∈ p.openings, span = opening.through token.span

theorem openings_addParameter (name : String) (span : Span) :
    ({ p with place := .body }.addParameter name span).openings = p.groups.map (·.opening) := by
  unfold Progress.openings
  rw [Progress.addParameter_place, Progress.brackets_addParameter]
  rfl

/-- A step notes at most one place, and all it leaves open but this token was open before. -/
theorem spans_of_step (taken : p.step token = .ok q) :
    (∃ span, p.Reports token span ∧ Notes span p q) ∧
      ∀ opening ∈ q.openings, opening = token.span ∨ opening ∈ p.openings := by
  cases here : p.place with
  | beforeName =>
    rcases step_beforeName here taken with ⟨content, -, rfl⟩ | ⟨-, rfl⟩
    · refine ⟨⟨token.span, Or.inl rfl, notes_stray content⟩, fun opening mem => Or.inr ?_⟩
      rwa [Progress.openings, Progress.beside_stray.place, Progress.beside_stray.groups] at mem
    · refine ⟨⟨token.span, Or.inl rfl, notes_nothing rfl⟩, fun opening mem => ?_⟩
      simpa [Progress.openings, Place.opening?, here] using mem
  | inName opening text =>
    rcases step_inName here taken with ⟨content, -, rfl⟩ | ⟨-, -, rfl⟩
    · refine ⟨⟨token.span, Or.inl rfl, notes_nothing rfl⟩, fun opening mem => Or.inr ?_⟩
      simpa [Progress.openings, Place.opening?, here] using mem
    · refine ⟨⟨token.span, Or.inl rfl, notes_nothing rfl⟩, fun opening mem => Or.inr ?_⟩
      exact List.mem_append_right _ mem
  | inParameter opening text =>
    have open_ : opening ∈ p.openings := by simp [Progress.openings, Place.opening?, here]
    rcases step_inParameter here taken with ⟨content, -, rfl⟩ | ⟨-, -, rfl⟩
    · refine ⟨⟨token.span, Or.inl rfl, notes_nothing rfl⟩, fun opening mem => Or.inr ?_⟩
      simpa [Progress.openings, Place.opening?, here] using mem
    · refine ⟨⟨_, Or.inr ⟨opening, open_, rfl⟩, ?_⟩, fun opening mem => Or.inr ?_⟩
      · exact (notes_nothing rfl).trans (notes_addParameter _)
      · rw [openings_addParameter] at mem
        exact List.mem_append_right _ mem
  | body =>
    rcases step_body here taken with ⟨content, -, rfl⟩ | ⟨-, rfl⟩ | ⟨-, rfl⟩ |
      ⟨-, group, outer, inside, rfl⟩
    · refine ⟨⟨token.span, Or.inl rfl, notes_stray content⟩, fun opening mem => Or.inr ?_⟩
      rwa [Progress.openings, Progress.beside_stray.place, Progress.beside_stray.groups] at mem
    · refine ⟨⟨token.span, Or.inl rfl, notes_nothing rfl⟩, fun opening mem => ?_⟩
      simpa [Progress.openings, Place.opening?, here] using mem
    · refine ⟨⟨token.span, Or.inl rfl, notes_nothing rfl⟩, fun opening mem => ?_⟩
      simpa [Progress.openings, Place.opening?, here] using mem
    · have open_ : group.opening ∈ p.openings := by simp [Progress.openings, inside]
      refine ⟨⟨_, Or.inr ⟨group.opening, open_, rfl⟩, notes_leave group outer⟩,
        fun opening mem => Or.inr ?_⟩
      obtain ⟨place, groups, -⟩ := Progress.leave_eq p group outer token.span
      rw [Progress.openings, place, groups] at mem
      rw [Progress.openings, inside]
      rcases List.mem_append.1 mem with marked | outside
      · exact List.mem_append_left _ marked
      · exact List.mem_append_right _ (List.mem_cons_of_mem _ outside)

theorem Progress.Refuses.reports {e : Error} (h : p.Refuses token e) : p.Reports token e.span := by
  cases h with
  | beforeName here other => exact Or.inl rfl
  | blankName here blank =>
    exact Or.inr ⟨_, List.mem_append_left _ (by simp [here, Place.opening?]), rfl⟩
  | inName here other => exact Or.inl rfl
  | secondName here => exact Or.inl rfl
  | unopened here outside => exact Or.inl rfl
  | blankParameter here blank =>
    exact Or.inr ⟨_, List.mem_append_left _ (by simp [here, Place.opening?]), rfl⟩
  | inParameter here other => exact Or.inl rfl

theorem Progress.Lacks.reports {e : Error} {length : Nat} (h : p.Lacks length e) :
    e.span = ⟨0, length⟩ ∨ e.span ∈ p.openings := by
  cases h with
  | name here => exact Or.inl rfl
  | endOfName here => exact Or.inr (List.mem_append_left _ (by simp [here, Place.opening?]))
  | endOfParameter here => exact Or.inr (List.mem_append_left _ (by simp [here, Place.opening?]))
  | endOfGroup here inside => exact Or.inr (List.mem_append_right _ (by simp [inside]))

/-! ## Where the reader stands in its line -/

/-- The reader has taken the line up to a position, and all it has met lies in front of it. -/
structure Located (line : List Char) (pos : Nat) (p : Progress) : Prop where
  openings : ∀ opening ∈ p.openings, opening.Within line ∧ opening.stop ≤ pos
  findings : ∀ finding ∈ p.findings,
    finding.2.Within line ∧ finding.2.start < finding.2.stop ∧ finding.2.stop ≤ pos
  ordered : p.findings.Pairwise fun first second => first.2.stop ≤ second.2.stop

section Located

variable {line : List Char} {pos stop : Nat} {span : Span}

theorem located_start (line : List Char) : Located line 0 .start :=
  ⟨by simp [Progress.openings, Progress.start, Place.opening?], by simp [Progress.start],
    List.Pairwise.nil⟩

/-- What is reported with a token lies in the line and ends with the token. -/
theorem Located.report (h : Located line token.span.start p) (within : token.span.Within line)
    (filled : token.span.start < token.span.stop) (reports : p.Reports token span) :
    span.Within line ∧ span.start < span.stop ∧ span.stop = token.span.stop := by
  rcases reports with rfl | ⟨opening, open_, rfl⟩
  · exact ⟨within, filled, rfl⟩
  · obtain ⟨opened, before⟩ := h.openings opening open_
    have apart : opening.start < token.span.stop := by
      have ordered := opened.ordered
      omega
    exact ⟨opened.through within (Nat.le_of_lt apart), apart, rfl⟩

theorem Located.step (h : Located line token.span.start p) (within : token.span.Within line)
    (filled : token.span.start < token.span.stop) (taken : p.step token = .ok q) :
    Located line token.span.stop q := by
  obtain ⟨⟨span, reports, noted, findings, here⟩, openings⟩ := spans_of_step taken
  obtain ⟨inside, nonempty, last⟩ := h.report within filled reports
  refine ⟨fun opening mem => ?_, ?_, ?_⟩
  · rcases openings opening mem with rfl | old
    · exact ⟨within, Nat.le_refl _⟩
    · obtain ⟨opened, before⟩ := h.openings opening old
      exact ⟨opened, by omega⟩
  · rw [findings, List.forall_mem_append]
    constructor
    · intro finding old
      obtain ⟨inside, nonempty, before⟩ := h.findings finding old
      exact ⟨inside, nonempty, by omega⟩
    · intro finding new
      rw [here finding new]
      exact ⟨inside, nonempty, Nat.le_of_eq last⟩
  · rw [findings, List.pairwise_append]
    refine ⟨h.ordered, ?_, fun finding old other new => ?_⟩
    · refine List.pairwise_iff_forall_sublist.2 fun pair => ?_
      have mem := pair.subset
      have same := here _ (mem List.mem_cons_self)
      have same' := here _ (mem (List.mem_cons_of_mem _ List.mem_cons_self))
      exact Nat.le_of_eq (by rw [same, same'])
    · rw [here other new, last]
      have before := (h.findings finding old).2.2
      omega

/-- Over a whole run, everything stays in the line. -/
theorem Located.reads (h : Located line pos p) (tiles : Tiles pos (tokens.map (·.span)) stop)
    (within : ∀ token ∈ tokens, token.span.Within line) (reads : Reads p tokens q) :
    Located line stop q := by
  induction tokens generalizing p pos with
  | nil =>
    rw [← reads_nil.1 reads, ← show pos = stop from tiles]
    exact h
  | cons token tokens ih =>
    obtain ⟨here, filled, tiles⟩ := tiles
    obtain ⟨r, taken, reads⟩ := reads_cons.1 reads
    obtain ⟨first, rest⟩ := List.forall_mem_cons.1 within
    rw [← here] at h
    exact ih (h.step first filled taken) tiles rest reads

/-- What a warning quotes is what stands at its place. -/
theorem ofFinding_slice {finding : Irregularity × Span} (within : finding.2.Within line) :
    Text.slice? line finding.2 = some (Warning.ofFinding line finding).text.toList := by
  obtain ⟨chars, found⟩ := within.exists_slice?
  rw [Warning.ofFinding, found, Option.getD_some, String.toList_ofList]

end Located

/-- **Positions are real.** The place of a warning is a byte range of the line that is not empty and
cuts no character, the warning quotes the characters there, and no warning ends before an earlier one.
The place of an error is a byte range of the line that cuts no character. -/
theorem parse_reports_real_positions (line : String) :
    (∀ outcome, parse line = .ok outcome →
        (∀ warning ∈ outcome.warnings, warning.span.start < warning.span.stop ∧
          warning.span.Within line.toList ∧
          Text.slice? line.toList warning.span = some warning.text.toList) ∧
        outcome.warnings.Pairwise fun first second => first.span.stop ≤ second.span.stop) ∧
      ∀ e, parse line = .error e → e.span.Within line.toList := by
  obtain ⟨covered, -, tiles⟩ := tiles_tokenize line.toList
  have within : ∀ token ∈ tokenize line.toList, token.span.Within line.toList :=
    fun token mem => (spelled_tokenize line.toList token mem).1
  refine ⟨fun outcome parsed => ?_, fun e failed => ?_⟩
  · obtain ⟨p, reads, -, -, rfl⟩ := parseChars_eq_ok.1 parsed
    have located := (located_start line.toList).reads tiles within reads
    refine ⟨fun warning mem => ?_, List.pairwise_map.2 located.ordered⟩
    obtain ⟨finding, found, rfl⟩ := List.mem_map.1 mem
    obtain ⟨inside, nonempty, -⟩ := located.findings finding found
    exact ⟨nonempty, inside, ofFinding_slice inside⟩
  · rcases parseChars_error failed with ⟨before, token, after, p, split, reads, refused⟩ |
      ⟨p, reads, lacking⟩
    · rw [split, List.map_append] at tiles
      rw [split] at within
      obtain ⟨pos, front, here, filled, -⟩ := tiles_append.1 tiles
      obtain ⟨first, within, -⟩ := List.forall_mem_append.1 within |>.imp_right List.forall_mem_cons.1
      have located := (located_start line.toList).reads front first reads
      rw [← here] at located
      exact (located.report within filled (refuses_of_step refused).reports).1
    · have located := (located_start line.toList).reads tiles within reads
      rcases (lacks_of_finish lacking).reports with whole | open_
      · rw [whole]
        exact ⟨Nat.zero_le _, Text.boundary_zero _, Text.boundary_byteLength _⟩
      · exact (located.openings _ open_).1

/-- Letters of two bytes in front of and inside the places of warnings, and in front of an error. -/
theorem parse_reports_real_positions_wide :
    let line := "é **c** [] *ü*"
    let broken := "**ü** *é"
    (∃ outcome, parse line = .ok outcome ∧
        outcome.warnings.map (fun warning => (warning.irregularity, warning.span)) =
          [(.strayText, ⟨0, 3⟩), (.emptyOptionalGroup, ⟨9, 11⟩), (.requiredAfterOptional, ⟨12, 16⟩)] ∧
        ∀ warning ∈ outcome.warnings, warning.span.start < warning.span.stop ∧
          warning.span.Within line.toList ∧
          Text.slice? line.toList warning.span = some warning.text.toList) ∧
      parse broken = .error ⟨.unterminatedParameter, ⟨7, 8⟩⟩ ∧
      Span.Within ⟨7, 8⟩ broken.toList := by
  intro line broken
  have accepted : (parse line).toOption.map (fun outcome =>
      outcome.warnings.map fun warning => (warning.irregularity, warning.span)) =
      some [(.strayText, ⟨0, 3⟩), (.emptyOptionalGroup, ⟨9, 11⟩),
        (.requiredAfterOptional, ⟨12, 16⟩)] := by decide
  have refused : parse broken = .error ⟨.unterminatedParameter, ⟨7, 8⟩⟩ := by decide
  refine ⟨?_, refused, (parse_reports_real_positions broken).2 _ refused⟩
  obtain ⟨outcome, parsed, warnings⟩ := map_toOption_eq_some.1 accepted
  exact ⟨outcome, parsed, warnings, ((parse_reports_real_positions line).1 outcome parsed).1⟩

end Bindery.Synopsis
