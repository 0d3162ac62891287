import Bindery.Proofs.Code.Escaping
import Bindery.Proofs.Code.Rendering
import Bindery.Proofs.Text.Trimming

/-!
# Where a doc comment ends

A doc comment ends where `*/` stands for the first time behind its start. The text of the comment
cannot hold these characters once it is escaped, and neither the marks in front of its lines nor the
line ends between them let a star and a slash meet.
-/

namespace Bindery.Code
set_option autoImplicit false

open Text (IsLine ended ended_append)

/-- The positions at which the characters that end a comment stand. -/
def closings (cs : List Char) : List Nat :=
  (List.range cs.length).filter fun i => commentEnd.isPrefixOf (cs.drop i)

/-- A text that starts a doc comment behind a margin and ends it nowhere but at its end. -/
def ClosedOnce (margin comment : String) : Prop :=
  ∃ front : String, comment = front ++ "*/\n" ∧ (margin ++ "/**").toList <+: front.toList ∧
    closings comment.toList = [front.toList.length]

/-! ## The lines of a comment -/

open Builder (commentLine)

theorem commentLine_ne_empty (cs : List Char) : commentLine cs ≠ "" := by
  unfold commentLine
  split <;> simp

theorem isLine_commentLine {cs : List Char} (oneLine : '\n' ∉ cs) : IsLine (commentLine cs) := by
  unfold commentLine
  split
  · decide
  · next shown =>
    have some : Text.trimEnd cs ≠ [] := fun none => shown (Text.trimEnd_eq_nil_iff.1 none)
    unfold IsLine
    rw [String.toList_ofList]
    constructor
    · simpa using fun mem => oneLine ((Text.prefix_trimEnd cs).subset mem)
    · rw [List.getLast?_append_of_ne_nil _ some]
      intro last
      exact absurd (Text.isBlank_of_getLast?_trimEnd last) (by decide)

theorem unended_commentLine {cs : List Char} (h : Unended cs) :
    Unended (commentLine cs).toList := by
  unfold commentLine
  split
  · decide
  · have kept : Unended (Text.trimEnd cs) := h.of_infix (Text.prefix_trimEnd cs).isInfix
    rw [String.toList_ofList]
    exact .append_cons (show ' ' ∉ commentEnd by decide) (show Unended [' ', '*'] by decide) kept

theorem ne_empty_of_mem_commentLines {text line : String} (mem : line ∈ commentLines text) :
    line ≠ "" := by
  simp only [commentLines] at mem
  split at mem
  · simp only [List.mem_cons, List.mem_append, List.mem_map, List.not_mem_nil, or_false] at mem
    rcases mem with rfl | ⟨cs, -, rfl⟩ | rfl
    · decide
    · exact commentLine_ne_empty cs
    · decide
  · rw [List.mem_singleton.1 mem]
    simp

theorem isLine_of_mem_commentLines {text line : String} (mem : line ∈ commentLines text) :
    IsLine line := by
  simp only [commentLines] at mem
  split at mem
  · simp only [List.mem_cons, List.mem_append, List.mem_map, List.not_mem_nil, or_false] at mem
    rcases mem with rfl | ⟨cs, part, rfl⟩ | rfl
    · decide
    · exact isLine_commentLine (Text.mem_lines part).2
    · decide
  · next oneLine =>
    rw [List.mem_singleton.1 mem]
    constructor
    · simpa using oneLine
    · rw [String.toList_append, List.getLast?_append_of_ne_nil _ (by decide)]
      decide

/-- The last line of a comment ends it, and nothing in front of that does. -/
theorem commentLines_split (text : String) : ∃ ls last, commentLines text = ls ++ [last ++ "*/"] ∧
    (∀ l ∈ ls, Unended l.toList) ∧ Unended (last.toList ++ ['*']) ∧
      ∃ first ∈ (ls ++ [last]).head?, "/**".toList <+: first.toList := by
  have escaped := unended_escapeCommentEnd text.toList
  simp only [commentLines]
  generalize escapeCommentEnd text.toList = cs at escaped ⊢
  split
  · refine ⟨"/**" :: (Text.lines cs).map commentLine, " ", rfl, ?_, by decide, "/**", rfl,
      List.prefix_refl _⟩
    simp only [List.forall_mem_cons, List.forall_mem_map]
    exact ⟨by decide, fun l part =>
      unended_commentLine (escaped.of_infix (Text.mem_lines part).1)⟩
  · refine ⟨[], "/** " ++ String.ofList cs ++ " ", by simp [String.append_assoc],
      by simp, ?_, "/** " ++ String.ofList cs ++ " ", rfl, ?_⟩
    · have text : Unended ("/**".toList ++ ' ' :: (cs ++ ' ' :: ['*'])) :=
        .append_cons (by decide) (by decide) (.append_cons (by decide) escaped (by decide))
      simpa using text
    · simp

/-! ## Where it ends -/

theorem closings_cons (c : Char) (cs : List Char) : closings (c :: cs) =
    (if commentEnd.isPrefixOf (c :: cs) then [0] else []) ++ (closings cs).map (· + 1) := by
  rw [closings, List.length_cons, List.range_succ_eq_map, List.filter_cons, List.filter_map,
    List.drop_zero]
  by_cases start : commentEnd.isPrefixOf (c :: cs) = true
  · rw [if_pos start, if_pos start]
    rfl
  · rw [if_neg start, if_neg start]
    rfl

theorem closings_append {front : List Char} (opened : Unended (front ++ ['*'])) :
    closings (front ++ ['*', '/', '\n']) = [front.length] := by
  induction front with
  | nil => decide
  | cons c front ih =>
    have rest : Unended (front ++ ['*']) := opened.of_infix (List.infix_cons (List.infix_refl _))
    -- An end at the very start would be over before the last slash.
    have elsewhere : ¬commentEnd.isPrefixOf (c :: (front ++ ['*', '/', '\n'])) = true := by
      intro start
      have within : c :: front ++ ['*'] <+: c :: (front ++ ['*', '/', '\n']) :=
        ⟨['/', '\n'], by simp⟩
      have inside : commentEnd <+: c :: front ++ ['*'] :=
        List.prefix_of_prefix_length_le (List.isPrefixOf_iff_prefix.1 start) within
          (by simp [commentEnd])
      exact opened inside.isInfix
    rw [List.cons_append, closings_cons, if_neg elsewhere, ih rest]
    rfl

theorem unended_ended {margin rest : String} {ls : List String} (starless : '*' ∉ margin.toList)
    (opened : ∀ l ∈ ls, Unended l.toList) (opened' : Unended rest.toList) :
    Unended (ended (ls.map (margin ++ ·)) ++ rest).toList := by
  induction ls with
  | nil => simpa using opened'
  | cons l ls ih =>
    rw [List.forall_mem_cons] at opened
    have first : Unended (margin.toList ++ l.toList) := opened.1.append_starless starless
    have later := Unended.append_cons (c := '\n') (by decide) first (ih opened.2)
    simpa [String.append_assoc] using later

/-- Lines behind a margin without stars, of which only the last holds an end, at its end. -/
theorem closedOnce_ended {margin last : String} {ls : List String}
    (starless : '*' ∉ margin.toList) (opened : ∀ l ∈ ls, Unended l.toList)
    (opened' : Unended (last.toList ++ ['*']))
    (start : ∃ first ∈ (ls ++ [last]).head?, "/**".toList <+: first.toList) :
    ClosedOnce margin (ended ((ls ++ [last ++ "*/"]).map (margin ++ ·))) := by
  have same : ended ((ls ++ [last ++ "*/"]).map (margin ++ ·)) =
      ended (ls.map (margin ++ ·)) ++ (margin ++ last) ++ "*/\n" := by
    simp [ended_append, String.append_assoc]
  refine ⟨ended (ls.map (margin ++ ·)) ++ (margin ++ last), same, ?_, ?_⟩
  · obtain ⟨first, mem, rest, start⟩ := start
    cases ls with
    | nil =>
      obtain rfl := Option.some.inj mem
      simp [← start]
    | cons l ls =>
      obtain rfl := Option.some.inj mem
      simp [← start]
  · have inside : Unended (margin ++ (last ++ "*")).toList := by
      rw [String.toList_append, String.toList_append]
      exact opened'.append_starless starless
    have whole : Unended ((ended (ls.map (margin ++ ·)) ++ (margin ++ last)).toList ++ ['*']) := by
      simpa using unended_ended starless opened inside
    rw [same, String.toList_append]
    exact closings_append whole

/-! ## Doc comments -/

theorem blank_of_mem_margin {indent : Indent} {level : Nat} {c : Char}
    (mem : c ∈ (indent.margin level).toList) : c = ' ' ∨ c = '\t' := by
  have unit : ∀ c ∈ indent.unit.toList, c = ' ' ∨ c = '\t' := by
    unfold Indent.unit
    split <;> simp
  induction level with
  | zero => cases mem
  | succ level ih =>
    rw [Indent.margin, List.replicate_succ, String.join_cons, String.toList_append] at mem
    exact (List.mem_append.1 mem).elim (unit c) ih

theorem newline_not_mem_margin (indent : Indent) (level : Nat) :
    '\n' ∉ (indent.margin level).toList := fun mem =>
  (blank_of_mem_margin mem).elim (by decide) (by decide)

/-- A whole line stays one behind a margin. -/
theorem isLine_behind {indent : Indent} (level : Nat) {line : String} (whole : IsLine line) :
    IsLine (behind (indent.margin level) line) := by
  unfold behind
  split
  · decide
  · next some => exact whole.prepend (newline_not_mem_margin indent level) some

theorem map_behind_commentLines (margin text : String) :
    (commentLines text).map (behind margin) = (commentLines text).map (margin ++ ·) :=
  List.map_congr_left fun _ mem => if_neg (ne_empty_of_mem_commentLines mem)

/-- What a doc comment adds to a text is closed once. -/
theorem closedOnce_commentLines (indent : Indent) (level : Nat) (text : String) :
    ClosedOnce (indent.margin level)
      (ended ((commentLines text).map (behind (indent.margin level)))) := by
  obtain ⟨ls, last, split, opened, opened', start⟩ := commentLines_split text
  have starless : '*' ∉ (indent.margin level).toList := fun mem =>
    (blank_of_mem_margin mem).elim (by decide) (by decide)
  rw [map_behind_commentLines, split]
  exact closedOnce_ended starless opened opened' start

/-- What a doc comment adds is closed once. -/
theorem docComment_closedOnce (b : Builder) (text : String) :
    ∃ added, b.docComment text = { b with text := b.text ++ added } ∧ ClosedOnce b.margin added :=
  ⟨_, b.docComment_eq text, closedOnce_commentLines b.indent b.level text⟩

end Bindery.Code
