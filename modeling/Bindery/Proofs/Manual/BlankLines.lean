import Bindery.Proofs.Manual.LineLabels

/-!
# What blank lines hide

A synopsis does not depend on what stands above a stop. A blank line is a stop unless it is skipped
with the heading below it, and then it hides nothing: the line above it is read.
-/

namespace Bindery.Manual
set_option autoImplicit false

/-- Whether there is a line at a position and it is blank. -/
def IsBlankAt (lines : List String) (position : Nat) : Prop :=
  ∃ line, lines[position]? = some line ∧ Text.isBlankText line = true

instance (lines : List String) (position : Nat) : Decidable (IsBlankAt lines position) :=
  decidable_of_iff ((lines[position]?).any Text.isBlankText = true) (by
    rw [Option.any_eq_true, IsBlankAt])

section Blank

variable {lines other : List String} {start position : Nat}

theorem getD_of_getElem? (agree : other[position]? = lines[position]?) :
    other.getD position "" = lines.getD position "" := by
  rw [List.getD_eq_getElem?_getD, List.getD_eq_getElem?_getD, agree]

theorem isBlankAt_iff (inside : position < lines.length) :
    IsBlankAt lines position ↔ LineLabel.ofLine (lines.getD position "") = .stop := by
  rw [LineLabel.ofLine_eq_stop_iff, List.getD_eq_getElem?_getD, IsBlankAt,
    List.getElem?_eq_getElem inside]
  simp

/-- **What stands above a stop does not matter.** -/
theorem linesAbove_of_agree {top : Nat} (inside : start < lines.length) (below : top ≤ start)
    (ends : top = 0 ∨ labelAt lines start top = .stop)
    (agree : ∀ i, top ≤ i → i ≤ start → other[i]? = lines[i]?) :
    linesAbove other (start + 1) = linesAbove lines (start + 1) := by
  have last := agree start below (Nat.le_refl _)
  rw [List.getElem?_eq_getElem inside, List.getElem?_eq_some_iff] at last
  obtain ⟨inside', -⟩ := last
  have label {i : Nat} (from_top : top ≤ i) (to_start : i ≤ start) :
      labelAt other start i = labelAt lines start i :=
    labelAt_congr to_start fun j from_here to_start =>
      getD_of_getElem? (agree j (Nat.le_trans from_top from_here) to_start)
  have accepts {i : Nat} (to_start : i ≤ start) :
      Accepts other start i ↔ Accepts lines start i := by
    rcases Nat.lt_or_ge i top with above | from_top
    · -- Of the lines above a stop, neither page accepts any.
      have stop : labelAt lines start top = .stop := ends.resolve_left (by omega)
      have stop' : labelAt other start top = .stop := (label (Nat.le_refl _) below).trans stop
      exact iff_of_false (fun h => h.2 top below above stop') fun h => h.2 top below above stop
    · unfold Accepts
      rw [label from_top to_start]
      refine and_congr_right fun _ => forall_congr' fun later => forall_congr' fun inside => ?_
      refine forall_congr' fun behind => ?_
      rw [label (Nat.le_trans from_top (Nat.le_of_lt behind)) inside]
  have same : acceptedLines other (start + 1) = acceptedLines lines (start + 1) :=
    List.filter_congr fun i mem =>
      decide_eq_decide.2 (accepts (Nat.lt_succ_iff.1 (List.mem_range.1 mem)))
  rw [linesAbove_eq_accepted inside', linesAbove_eq_accepted inside, same]
  refine List.map_congr_left fun i mem => ?_
  obtain ⟨to_start, -, free⟩ := mem_acceptedLines.1 mem
  have from_top : top ≤ i := by
    rcases ends with rfl | stop
    · exact Nat.zero_le i
    · exact Nat.not_lt.1 fun above => free top below above stop
  rw [getD_of_getElem? (agree i from_top (Nat.lt_succ_iff.1 to_start))]

/-- The first accepted line, if none above it is accepted. -/
theorem acceptedLines_eq_cons (below : position ≤ start) (accepts : Accepts lines start position)
    (none : ∀ i, i < position → ¬Accepts lines start i) :
    ∃ rest, acceptedLines lines (start + 1) = position :: rest := by
  obtain ⟨distance, rfl⟩ := Nat.exists_eq_add_of_le below
  have above : (List.range position).filter (Accepts lines (position + distance) ·) = [] := by
    rw [List.filter_eq_nil_iff]
    intro i mem
    simpa using none i (List.mem_range.1 mem)
  rw [acceptedLines_succ, Nat.add_assoc, List.range_add, List.filter_append, above,
    List.nil_append, List.range_succ_eq_map, List.map_cons, Nat.add_zero]
  exact ⟨_, List.filter_cons_of_pos (decide_eq_true accepts)⟩

/-- A page with blank lines in place of the first ones, then this line, then the same lines. -/
def toppedBy (line : String) (position : Nat) (lines : List String) : List String :=
  List.replicate position "" ++ line :: lines.drop (position + 1)

theorem getElem?_toppedBy (line : String) (lines : List String) {i : Nat} (behind : position < i) :
    (toppedBy line position lines)[i]? = lines[i]? := by
  obtain ⟨distance, rfl⟩ := Nat.exists_eq_add_of_lt behind
  rw [toppedBy, List.getElem?_append_right (by rw [List.length_replicate]; omega),
    List.length_replicate, Nat.add_assoc, Nat.add_sub_cancel_left, List.getElem?_cons_succ,
    List.getElem?_drop, Nat.add_right_comm, Nat.add_assoc]

theorem getD_toppedBy (line : String) (lines : List String) :
    (toppedBy line position lines).getD position "" = line := by
  simp [toppedBy]

theorem getD_toppedBy_above (line : String) (lines : List String) {i : Nat} (above : i < position) :
    (toppedBy line position lines).getD i "" = "" := by
  rw [List.getD_eq_getElem?_getD, toppedBy, List.getElem?_append_left (by simpa using above)]
  simp [above]

/-- The line above a blank line that is skipped is read: if it may be accepted, the synopsis starts
with it. -/
theorem linesAbove_toppedBy {line : String} (below : position + 1 ≤ start)
    (inside : start < lines.length) (skipped : labelAt lines start (position + 1) = .skipped)
    (nearest : ∀ i, position + 1 < i → i ≤ start → ¬IsBlankAt lines i)
    (plain : LineLabel.ofLine line = .accepted) :
    ∃ rest, linesAbove (toppedBy line position lines) (start + 1) = Text.trimmed line :: rest := by
  have above : position < start := below
  have last := getElem?_toppedBy line lines above
  rw [List.getElem?_eq_getElem inside, List.getElem?_eq_some_iff] at last
  obtain ⟨inside', -⟩ := last
  have label {i : Nat} (behind : position < i) (to_start : i ≤ start) :
      labelAt (toppedBy line position lines) start i = labelAt lines start i :=
    labelAt_congr to_start fun j from_here _ =>
      getD_of_getElem? (getElem?_toppedBy line lines (Nat.lt_of_lt_of_le behind from_here))
  have accepts : Accepts (toppedBy line position lines) start position := by
    refine ⟨?_, fun later to_start behind stop => ?_⟩
    · rw [labelAt_of_lt above, label (Nat.lt_succ_self position) below, skipped,
        if_neg (by decide), getD_toppedBy]
      exact plain
    · rw [label behind to_start] at stop
      rcases Nat.eq_or_lt_of_le behind with rfl | further
      · rw [skipped] at stop
        cases stop
      · refine nearest later further to_start ((isBlankAt_iff (by omega)).2 ?_)
        rw [← labelAt_of_seen to_start (by rw [stop]; decide), stop]
  have none (i : Nat) (before : i < position) :
      ¬Accepts (toppedBy line position lines) start i := by
    intro ⟨accepted, _⟩
    rw [labelAt_of_seen (by omega) (by rw [accepted]; decide), getD_toppedBy_above line lines before]
      at accepted
    cases accepted
  obtain ⟨rest, accepted⟩ := acceptedLines_eq_cons (Nat.le_of_lt above) accepts none
  rw [linesAbove_eq_accepted inside', accepted, List.map_cons, getD_toppedBy]
  exact ⟨_, rfl⟩

theorem head?_intercalate {c : Char} {cs : List Char} {first : String} (starts : first.toList = c :: cs)
    (rest : List String) : (" ".intercalate (first :: rest)).toList.head? = some c := by
  cases rest with
  | nil => rw [String.intercalate_singleton, starts]; rfl
  | cons second rest =>
    rw [String.intercalate_cons_cons, String.toList_append, String.toList_append, starts]
    rfl

end Blank

/-- **When a blank line hides what is above it.** Let a line be the nearest blank one that is at
least two above the mark. All pages that agree from it on have the same synopsis exactly if it is not
skipped by the reading, or is the first line anyway. -/
theorem blank_line_hides_iff {lines : List String} {mark position : Nat} (above : position ≤ mark - 2)
    (blank : IsBlankAt lines position)
    (nearest : ∀ i, position < i → i ≤ mark - 2 → ¬IsBlankAt lines i) :
    (∀ other : List String, (∀ i, position ≤ i → i ≤ mark - 2 → other[i]? = lines[i]?) →
      synopsisAbove other mark = synopsisAbove lines mark) ↔
    ¬(mark - 2 < lines.length ∧ 0 < position ∧ labelAt lines (mark - 2) position = .skipped) := by
  constructor
  · rintro same ⟨inside, later, skipped⟩
    obtain ⟨position, rfl⟩ := Nat.exists_eq_succ_of_ne_zero (Nat.ne_of_gt later)
    obtain ⟨start, rfl⟩ : ∃ start, mark = start + 2 := ⟨mark - 2, by omega⟩
    -- Two letters in place of the line above it would both be the first of the synopsis.
    have first {c : Char} {line : String} (text : (Text.trimmed line).toList = [c])
        (plain : LineLabel.ofLine line = .accepted) :
        (synopsisAbove lines (start + 2)).toList.head? = some c := by
      obtain ⟨rest, read⟩ := linesAbove_toppedBy above inside skipped nearest plain
      rw [← same _ fun i behind _ => getElem?_toppedBy line lines behind]
      exact (congrArg (fun texts => (" ".intercalate texts).toList.head?) read).trans
        (head?_intercalate text rest)
    have one := first (show (Text.trimmed "a").toList = ['a'] by decide) (by decide)
    have two := first (show (Text.trimmed "b").toList = ['b'] by decide) (by decide)
    rw [one] at two
    exact absurd two (by decide)
  · intro hides other agree
    have read : linesAbove other (mark - 1) = linesAbove lines (mark - 1) := by
      rcases Nat.lt_or_ge mark 2 with few | marked
      · rw [Nat.sub_eq_zero_of_le (Nat.le_of_lt_succ few), linesAbove, linesAbove]
      obtain ⟨start, rfl⟩ := Nat.exists_eq_add_of_le' marked
      rcases Nat.lt_or_ge start lines.length with inside | outside
      · refine linesAbove_of_agree inside above ?_ agree
        refine (Nat.eq_zero_or_pos position).imp_right fun later => ?_
        have seen : labelAt lines start position ≠ .skipped := fun skipped =>
          hides ⟨inside, later, skipped⟩
        exact (labelAt_of_seen above seen).trans
          ((isBlankAt_iff (Nat.lt_of_le_of_lt above inside)).1 blank)
      · have last := agree start above (Nat.le_refl _)
        rw [List.getElem?_eq_none outside, List.getElem?_eq_none_iff] at last
        exact (linesAbove_outside last).trans (linesAbove_outside outside).symm
    exact congrArg (" ".intercalate ·) read

/-- A capital letter directly below a blank line does not matter if its line is skipped itself. -/
theorem blank_line_hides_iff_skippedTitle :
    let lines := ["**lost**", "", "Title", "SYNOPSIS", "*id*", "-", "DESCRIPTION"]
    IsBlankAt lines 1 ∧ (∀ i, 1 < i → i ≤ 6 - 2 → ¬IsBlankAt lines i) ∧
      labelAt lines (6 - 2) 1 = .stop ∧ synopsisAbove lines 6 = "*id*" ∧
      ∀ other : List String, (∀ i, 1 ≤ i → i ≤ 6 - 2 → other[i]? = lines[i]?) →
        synopsisAbove other 6 = synopsisAbove lines 6 := by
  intro lines
  have blank : IsBlankAt lines 1 := by decide
  have nearest : ∀ i, 1 < i → i ≤ 6 - 2 → ¬IsBlankAt lines i := by
    intro i behind to_start
    obtain rfl | rfl | rfl : i = 2 ∨ i = 3 ∨ i = 4 := by omega
    all_goals decide
  have stop : labelAt lines (6 - 2) 1 = .stop := by decide
  refine ⟨blank, nearest, stop, by decide +kernel, (blank_line_hides_iff (by decide) blank nearest).2 ?_⟩
  rintro ⟨-, -, skipped⟩
  rw [stop] at skipped
  cases skipped

/-- The heading below the blank line makes it skipped, and the first line of the page is read. -/
theorem heading_uncovers_first_line :
    let lines := ["lightning-ping -- Command", "", "SYNOPSIS", "**ping** *id*", "", "DESCRIPTION"]
    let other := ["lightning-pong -- Command", "", "SYNOPSIS", "**ping** *id*", "", "DESCRIPTION"]
    IsBlankAt lines 1 ∧ (∀ i, 1 < i → i ≤ 5 - 2 → ¬IsBlankAt lines i) ∧
      (∀ i, 1 ≤ i → i ≤ 5 - 2 → other[i]? = lines[i]?) ∧
      synopsisAbove lines 5 = "lightning-ping -- Command **ping** *id*" ∧
      synopsisAbove other 5 ≠ synopsisAbove lines 5 := by
  intro lines other
  refine ⟨by decide, fun i behind to_start => ?_, fun i behind to_start => ?_, by decide +kernel,
    by decide +kernel⟩
  · obtain rfl | rfl : i = 2 ∨ i = 3 := by omega
    all_goals decide
  · obtain rfl | rfl | rfl : i = 1 ∨ i = 2 ∨ i = 3 := by omega
    all_goals rfl

end Bindery.Manual
