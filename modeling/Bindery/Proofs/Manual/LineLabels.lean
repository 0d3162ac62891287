import Bindery.Proofs.Manual.Scan
import Bindery.Proofs.Text.Search
import Bindery.Proofs.Text.Trimming

/-!
# What becomes of the lines above a description

Reading upwards gives each line a label. The line directly above a heading is skipped without a look
at it; any other is a stop if it is blank, a heading if it starts with a capital letter of ASCII, and
accepted else. The synopsis consists of the lines that are accepted before the first stop.
-/

namespace Bindery.Manual
set_option autoImplicit false

/-- What becomes of a line. -/
inductive LineLabel where
  /-- It stands directly above a heading. -/
  | skipped
  | stop
  | heading
  | accepted
deriving DecidableEq

/-- The label of a line that is looked at, by its first character that is not blank. -/
def LineLabel.ofLine (line : String) : LineLabel :=
  match Text.trim line.toList with
  | [] => .stop
  | c :: _ => if 'A' ≤ c ∧ c ≤ 'Z' then .heading else .accepted

/-- The label of the line that is so many lines above the one at `start`, where reading starts. -/
def labelAbove (lines : List String) (start : Nat) : Nat → LineLabel
  | 0 => .ofLine (lines.getD start "")
  | distance + 1 =>
    if labelAbove lines start distance = .heading then .skipped
    else .ofLine (lines.getD (start - (distance + 1)) "")

/-- The label of a line, if reading starts at the line at `start`. -/
def labelAt (lines : List String) (start position : Nat) : LineLabel :=
  labelAbove lines start (start - position)

/-- Whether a line is accepted before the first stop. -/
def Accepts (lines : List String) (start position : Nat) : Prop :=
  labelAt lines start position = .accepted ∧
    ∀ later, later ≤ start → position < later → labelAt lines start later ≠ .stop

instance (lines : List String) (start position : Nat) : Decidable (Accepts lines start position) :=
  inferInstanceAs (Decidable (_ ∧ _))

/-- The positions of the lines that are accepted among the first `n`, if reading starts at the last of
these. -/
def acceptedLines (lines : List String) (n : Nat) : List Nat :=
  (List.range n).filter (Accepts lines (n - 1) ·)

/-! ## Labels -/

theorem LineLabel.ofLine_eq (line : String) : ofLine line =
    if Text.trimmed line = "" then .stop
    else if isHeading (Text.trimmed line) then .heading else .accepted := by
  unfold ofLine Text.trimmed isHeading
  cases Text.trim line.toList with
  | nil => rfl
  | cons c rest =>
    have some : String.ofList (c :: rest) ≠ "" := by simp [← String.toList_inj]
    have capital : 'A' ≤ c ∧ c ≤ 'Z' ↔ c.isUpper = true := by
      unfold Char.isUpper
      simp [Char.le_def, UInt32.le_iff_toNat_le]
    rw [if_neg some, String.toList_ofList]
    simp only [capital]

theorem LineLabel.ofLine_ne_skipped (line : String) : ofLine line ≠ .skipped := by
  rw [ofLine_eq]
  split
  · nofun
  · split <;> nofun

theorem LineLabel.ofLine_eq_stop_iff (line : String) :
    ofLine line = .stop ↔ Text.isBlankText line = true := by
  unfold ofLine Text.isBlankText
  rw [← Text.trim_eq_nil_iff]
  cases Text.trim line.toList with
  | nil => simp
  | cons c rest =>
    simp only [reduceCtorEq, iff_false]
    split <;> nofun

section Labels

variable {lines other : List String} {start position : Nat} {line : String}

theorem labelAt_start : labelAt lines start start = .ofLine (lines.getD start "") := by
  rw [labelAt, Nat.sub_self, labelAbove]

/-- The label of a line depends on that of the line below it. -/
theorem labelAt_of_lt (above : position < start) : labelAt lines start position =
    if labelAt lines start (position + 1) = .heading then .skipped
    else .ofLine (lines.getD position "") := by
  obtain ⟨distance, rfl⟩ := Nat.exists_eq_add_of_lt above
  have here : position + distance + 1 - position = distance + 1 := by omega
  have below : position + distance + 1 - (position + 1) = distance := by omega
  have back : position + distance + 1 - (distance + 1) = position := by omega
  rw [labelAt, labelAt, here, below, labelAbove, back]

/-- A line that is looked at has the label that it would have if reading started there. -/
theorem labelAt_of_seen (below : position ≤ start)
    (seen : labelAt lines start position ≠ .skipped) :
    labelAt lines start position = .ofLine (lines.getD position "") := by
  rcases Nat.eq_or_lt_of_le below with rfl | above
  · exact labelAt_start
  · rw [labelAt_of_lt above] at seen ⊢
    rw [if_neg fun heading => seen (if_pos heading)]

/-- Above a line that is looked at, labels are those of a reading that starts there. -/
theorem labelAt_restart {middle : Nat} (below : middle ≤ start)
    (seen : labelAt lines start middle ≠ .skipped) (above : position ≤ middle) :
    labelAt lines start position = labelAt lines middle position := by
  induction above using Nat.decreasingInduction with
  | self => exact (labelAt_of_seen below seen).trans labelAt_start.symm
  | of_succ i above ih => rw [labelAt_of_lt (Nat.lt_of_lt_of_le above below), labelAt_of_lt above, ih]

/-- Labels depend on no lines further up. -/
theorem labelAt_congr (below : position ≤ start)
    (agree : ∀ i, position ≤ i → i ≤ start → other.getD i "" = lines.getD i "") :
    labelAt other start position = labelAt lines start position := by
  induction below using Nat.decreasingInduction with
  | self => rw [labelAt_start, labelAt_start, agree start (Nat.le_refl _) (Nat.le_refl _)]
  | of_succ i above ih =>
    have next := ih fun j from_here => agree j (Nat.le_of_succ_le from_here)
    rw [labelAt_of_lt above, labelAt_of_lt above, next, agree i (Nat.le_refl _) (Nat.le_of_lt above)]

end Labels

/-! ## Accepted lines -/

section Accepted

variable {lines other : List String} {n start position : Nat} {line : String}

theorem mem_acceptedLines :
    position ∈ acceptedLines lines n ↔ position < n ∧ Accepts lines (n - 1) position := by
  rw [acceptedLines, List.mem_filter, List.mem_range, decide_eq_true_eq]

theorem pairwise_acceptedLines (lines : List String) (n : Nat) :
    (acceptedLines lines n).Pairwise (· < ·) :=
  List.pairwise_lt_range.filter _

/-- What is accepted above a line that is looked at is what a reading accepts that starts there,
unless there is a stop below it. -/
theorem accepts_restart {middle : Nat} (below : middle ≤ start)
    (seen : labelAt lines start middle ≠ .skipped)
    (free : ∀ later, later ≤ start → middle < later → labelAt lines start later ≠ .stop)
    (above : position ≤ middle) : Accepts lines start position ↔ Accepts lines middle position := by
  have same {i : Nat} (inside : i ≤ middle) : labelAt lines start i = labelAt lines middle i :=
    labelAt_restart below seen inside
  unfold Accepts
  rw [same above]
  refine and_congr_right fun _ => ⟨fun none later inside behind => ?_, fun none later inside behind => ?_⟩
  · rw [← same inside]
    exact none later (Nat.le_trans inside below) behind
  · rcases Nat.lt_or_ge middle later with further | nearer
    · exact free later inside further
    · rw [same nearer]
      exact none later nearer behind

theorem acceptedLines_succ :
    acceptedLines lines (n + 1) = (List.range (n + 1)).filter (Accepts lines n ·) :=
  rfl

/-- The first of the accepted lines are those of a reading of fewer lines. -/
theorem filter_accepts {fewer : Nat} (among : fewer ≤ start + 1)
    (seen : ∀ i, fewer = i + 1 → labelAt lines start i ≠ .skipped)
    (free : ∀ later, later ≤ start → fewer ≤ later → labelAt lines start later ≠ .stop) :
    (List.range fewer).filter (Accepts lines start ·) = acceptedLines lines fewer := by
  cases fewer with
  | zero => rfl
  | succ middle =>
    refine List.filter_congr fun i mem => decide_eq_decide.2 ?_
    have above : i ≤ middle := Nat.lt_succ_iff.1 (List.mem_range.1 mem)
    exact accepts_restart (Nat.le_of_succ_le_succ among) (seen middle rfl) free above

theorem acceptedLines_of_stop (stop : labelAt lines n n = .stop) :
    acceptedLines lines (n + 1) = [] := by
  rw [List.eq_nil_iff_forall_not_mem]
  intro i mem
  obtain ⟨inside, accepted, free⟩ := mem_acceptedLines.1 mem
  rcases Nat.eq_or_lt_of_le (Nat.lt_succ_iff.1 inside) with rfl | above
  · rw [Nat.add_sub_cancel, stop] at accepted
    cases accepted
  · exact free n (Nat.le_refl _) above stop

theorem acceptedLines_of_accepted (accepted : labelAt lines n n = .accepted) :
    acceptedLines lines (n + 1) = acceptedLines lines n ++ [n] := by
  have last : Accepts lines n n :=
    ⟨accepted, fun later inside behind => absurd behind (Nat.not_lt.2 inside)⟩
  have front : (List.range n).filter (Accepts lines n ·) = acceptedLines lines n := by
    refine filter_accepts (Nat.le_succ n) ?_ fun later inside behind => ?_
    · rintro i rfl
      rw [labelAt_of_lt (Nat.lt_succ_self i), accepted, if_neg (by decide)]
      exact LineLabel.ofLine_ne_skipped _
    · rw [Nat.le_antisymm inside behind, accepted]
      decide
  rw [acceptedLines_succ, List.range_succ, List.filter_append, front]
  simp [last]

/-- A heading is left out together with the line above it. -/
theorem acceptedLines_of_heading (heading : labelAt lines n n = .heading) :
    acceptedLines lines (n + 1) = acceptedLines lines (n - 1) := by
  have last : ¬Accepts lines n n := fun ⟨accepted, _⟩ => by
    rw [heading] at accepted
    cases accepted
  cases n with
  | zero =>
    rw [acceptedLines_succ, List.range_succ, List.filter_append]
    simp [last, acceptedLines]
  | succ n =>
    have above : labelAt lines (n + 1) n = .skipped := by
      rw [labelAt_of_lt (Nat.lt_succ_self n), if_pos heading]
    have skipped : ¬Accepts lines (n + 1) n := fun ⟨accepted, _⟩ => by
      rw [above] at accepted
      cases accepted
    have front : (List.range n).filter (Accepts lines (n + 1) ·) = acceptedLines lines n := by
      refine filter_accepts (by omega) ?_ fun later inside behind => ?_
      · rintro i rfl
        rw [labelAt_of_lt (by omega), above, if_neg (by decide)]
        exact LineLabel.ofLine_ne_skipped _
      · obtain rfl | rfl : later = n ∨ later = n + 1 := by omega
        · rw [above]
          decide
        · rw [heading]
          decide
    rw [acceptedLines_succ, List.range_succ, List.range_succ, List.filter_append,
      List.filter_append, front]
    simp [last, skipped]

/-- What is read above a line depends on its label. -/
theorem linesAbove_succ (here : lines[n]? = some line) : linesAbove lines (n + 1) =
    match LineLabel.ofLine line with
    | .stop => []
    | .heading => linesAbove lines (n - 1)
    | _ => linesAbove lines n ++ [Text.trimmed line] := by
  rw [linesAbove.eq_def, LineLabel.ofLine_eq]
  simp only [here]
  split
  · rfl
  · split
    · cases n <;> rfl
    · rfl

/-- **Reading upwards gives the accepted lines.** -/
theorem linesAbove_eq_accepted (inside : n ≤ lines.length) : linesAbove lines n =
    (acceptedLines lines n).map fun i => Text.trimmed (lines.getD i "") := by
  induction n using Nat.strong_induction_on with
  | _ n ih =>
    cases n with
    | zero => rfl
    | succ n =>
      have here : lines[n]? = some (lines.getD n "") := by
        rw [List.getD_eq_getElem?_getD, List.getElem?_eq_getElem inside]
        rfl
      have first : labelAt lines n n = .ofLine (lines.getD n "") := labelAt_start
      rw [linesAbove_succ here]
      cases label : LineLabel.ofLine (lines.getD n "") with
      | skipped => exact absurd label (LineLabel.ofLine_ne_skipped _)
      | stop =>
        rw [acceptedLines_of_stop (first.trans label)]
        rfl
      | heading =>
        rw [acceptedLines_of_heading (first.trans label)]
        exact ih (n - 1) (by omega) (by omega)
      | accepted =>
        rw [acceptedLines_of_accepted (first.trans label), List.map_append]
        exact congrArg (· ++ _) (ih n (Nat.lt_succ_self n) (Nat.le_of_succ_le inside))

theorem linesAbove_outside (outside : lines.length ≤ n) : linesAbove lines (n + 1) = [] := by
  rw [linesAbove.eq_def]
  simp only [List.getElem?_eq_none outside]

/-- An accepted line shows something, and does not start like a heading. -/
theorem first_of_accepts (below : position ≤ start) (accepts : Accepts lines start position) :
    ∃ c rest, (Text.trimmed (lines.getD position "")).toList = c :: rest ∧
      Text.isBlank c = false ∧ ¬('A' ≤ c ∧ c ≤ 'Z') := by
  have accepted := accepts.1
  rw [labelAt_of_seen below (by rw [accepted]; decide)] at accepted
  unfold LineLabel.ofLine at accepted
  rw [Text.trimmed, String.toList_ofList]
  cases text : Text.trim (lines.getD position "").toList with
  | nil =>
    rw [text] at accepted
    cases accepted
  | cons c rest =>
    have first : (Text.trim (lines.getD position "").toList).head? = some c := by rw [text]; rfl
    refine ⟨c, rest, rfl, Text.isBlank_of_head?_trim first, fun capital => ?_⟩
    simp only [text, if_pos capital, reduceCtorEq] at accepted

/-- A word of texts that are joined with spaces is a word of one of them. -/
theorem mem_of_infix_intercalate {texts : List String} {word : List Char} (some : word ≠ [])
    (apart : ' ' ∉ word) (inside : word <:+: (" ".intercalate texts).toList) :
    ∃ text ∈ texts, word <:+: text.toList := by
  induction texts with
  | nil => exact absurd (List.infix_nil.1 inside) some
  | cons first rest ih =>
    cases rest with
    | nil =>
      rw [String.intercalate_singleton] at inside
      exact ⟨first, List.mem_cons_self, inside⟩
    | cons second rest =>
      have joined : (" ".intercalate (first :: second :: rest)).toList =
          first.toList ++ ' ' :: (" ".intercalate (second :: rest)).toList := by
        rw [String.intercalate_cons_cons, String.toList_append, String.toList_append,
          List.append_assoc]
        rfl
      rw [joined] at inside
      rcases Text.infix_of_append_cons apart inside with here | later
      · exact ⟨first, List.mem_cons_self, here⟩
      · obtain ⟨text, mem, here⟩ := ih later
        exact ⟨text, List.mem_cons_of_mem first mem, here⟩

end Accepted

/-- **The synopsis is made of the accepted lines.** If the line two above the mark is there, the
synopsis is the accepted lines without the blanks around them, each once, in the order of the page
and with spaces between them. None of them is blank or starts with a capital letter of ASCII, and
each word of the synopsis is from one of them. Of any other mark the synopsis is empty. -/
theorem synopsis_joins_accepted (lines : List String) (mark : Nat) :
    (2 ≤ mark ∧ mark - 2 < lines.length →
      ∃ accepted : List Nat, accepted.Pairwise (· < ·) ∧
        (∀ i, i ∈ accepted ↔ i ≤ mark - 2 ∧ labelAt lines (mark - 2) i = .accepted ∧
          ∀ later, later ≤ mark - 2 → i < later → labelAt lines (mark - 2) later ≠ .stop) ∧
        synopsisAbove lines mark =
          " ".intercalate (accepted.map fun i => Text.trimmed (lines.getD i "")) ∧
        (∀ i ∈ accepted, ∃ c rest, (Text.trimmed (lines.getD i "")).toList = c :: rest ∧
          Text.isBlank c = false ∧ ¬('A' ≤ c ∧ c ≤ 'Z')) ∧
        ∀ word, word ≠ [] → (∀ c ∈ word, Text.isBlank c = false) →
          word <:+: (synopsisAbove lines mark).toList →
          ∃ i ∈ accepted, word <:+: (lines.getD i "").toList) ∧
    (¬(2 ≤ mark ∧ mark - 2 < lines.length) → synopsisAbove lines mark = "") := by
  constructor
  · rintro ⟨marked, inside⟩
    obtain ⟨start, rfl⟩ := Nat.exists_eq_add_of_le' marked
    have members (i : Nat) : i ∈ acceptedLines lines (start + 1) ↔ i ≤ start ∧ Accepts lines start i := by
      rw [mem_acceptedLines, Nat.lt_succ_iff, Nat.add_sub_cancel]
    have joined : synopsisAbove lines (start + 2) =
        " ".intercalate ((acceptedLines lines (start + 1)).map
          fun i => Text.trimmed (lines.getD i "")) :=
      congrArg _ (linesAbove_eq_accepted inside)
    refine ⟨_, pairwise_acceptedLines lines (start + 1), members, joined, ?_, ?_⟩
    · intro i mem
      obtain ⟨below, accepts⟩ := (members i).1 mem
      exact first_of_accepts below accepts
    · intro word some shown occurs
      have apart : ' ' ∉ word := fun mem => by cases shown ' ' mem
      rw [joined] at occurs
      obtain ⟨text, mem, here⟩ := mem_of_infix_intercalate some apart occurs
      obtain ⟨i, accepted, rfl⟩ := List.mem_map.1 mem
      rw [Text.trimmed, String.toList_ofList] at here
      exact ⟨i, accepted, here.trans (Text.infix_trim _)⟩
  · intro unmarked
    have nothing : linesAbove lines (mark - 1) = [] := by
      rcases Nat.lt_or_ge mark 2 with few | marked
      · rw [Nat.sub_eq_zero_of_le (Nat.le_of_lt_succ few), linesAbove]
      · obtain ⟨start, rfl⟩ := Nat.exists_eq_add_of_le' marked
        have outside : lines.length ≤ start := Nat.not_lt.1 fun inside => unmarked ⟨marked, inside⟩
        exact linesAbove_outside outside
    rw [synopsisAbove, nothing]
    rfl

/-- Headings one above the other, and one below the second line of the page. -/
def crowdedLines : List String :=
  ["", "**name**", "Title", " **pay** ", "Older", "SYNOPSIS", "*bolt11*", "-", "DESCRIPTION"]

theorem synopsis_joins_accepted_crowded :
    (2 ≤ 8 ∧ 8 - 2 < crowdedLines.length) ∧
      (List.range 7).map (labelAt crowdedLines 6) =
        [.stop, .skipped, .heading, .accepted, .skipped, .heading, .accepted] ∧
      synopsisAbove crowdedLines 8 = "**pay** *bolt11*" ∧
      ∃ accepted : List Nat, accepted.Pairwise (· < ·) ∧
        (∀ i, i ∈ accepted ↔ i ≤ 6 ∧ labelAt crowdedLines 6 i = .accepted ∧
          ∀ later, later ≤ 6 → i < later → labelAt crowdedLines 6 later ≠ .stop) ∧
        synopsisAbove crowdedLines 8 =
          " ".intercalate (accepted.map fun i => Text.trimmed (crowdedLines.getD i "")) := by
  have marked : 2 ≤ 8 ∧ 8 - 2 < crowdedLines.length := by decide
  obtain ⟨accepted, order, members, joined, -, -⟩ := (synopsis_joins_accepted crowdedLines 8).1 marked
  exact ⟨marked, by decide +kernel, by decide +kernel, accepted, order, members, joined⟩

end Bindery.Manual
