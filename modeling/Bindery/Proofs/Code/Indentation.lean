import Bindery.Proofs.Code.Comments

/-!
# Indentation moves code as a whole

A fragment at some level is the fragment at the outermost level with a margin in front of each of
its lines that is not empty. This needs that the lines of the fragment are lines: a newline inside one
would start a line that gets no margin. Doc comments may hold newlines, since they are cut at them.
-/

namespace Bindery.Code
set_option autoImplicit false

open Text (IsLine closeBrace ended ended_cons openBrace)

/-! ## Lines of code -/

mutual

/-- The texts of the lines of a fragment, its doc comments aside. -/
def Fragment.code : Fragment → List String
  | .line text => [text]
  | .blank => []
  | .docComment _ => []
  | .block header body close => header :: (Fragment.codeOfAll body ++ close.toList)
termination_by structural fragment => fragment

/-- The texts of the lines of fragments, their doc comments aside. -/
def Fragment.codeOfAll : List Fragment → List String
  | [] => []
  | f :: rest => Fragment.code f ++ Fragment.codeOfAll rest
termination_by structural fragments => fragments

end

namespace Fragment

theorem codeOfAll_append (fs gs : List Fragment) :
    codeOfAll (fs ++ gs) = codeOfAll fs ++ codeOfAll gs := by
  induction fs with
  | nil => rfl
  | cons f fs ih => rw [List.cons_append, codeOfAll, codeOfAll, ih, List.append_assoc]

@[simp] theorem codeOfAll_ofDoc (doc : Option String) : codeOfAll (ofDoc doc) = [] := by
  cases doc <;> rfl

end Fragment

/-- What blank lines and the lines of comments have, and what margins keep. -/
structure HeldByLines (indent : Indent) (p : String → Prop) : Prop where
  blank : p ""
  comment : ∀ text, ∀ line ∈ commentLines text, p line
  behind : ∀ level line, p line → p (behind (indent.margin level) line)

namespace HeldByLines

variable {indent : Indent} {p : String → Prop}

mutual

/-- What holds of the texts of a fragment's lines holds of its lines. -/
theorem lines (h : HeldByLines indent p) (level : Nat) : (f : Fragment) →
    (∀ text ∈ f.code, p text) → ∀ line ∈ f.lines indent level, p line
  | .line text, each => by
    intro line mem
    rw [List.mem_singleton.1 mem]
    exact h.behind level text (each text List.mem_cons_self)
  | .blank, _ => by
    intro line mem
    rw [List.mem_singleton.1 mem]
    exact h.blank
  | .docComment text, _ => by
    intro line mem
    obtain ⟨part, here, rfl⟩ := List.mem_map.1 mem
    exact h.behind level part (h.comment text part here)
  | .block header body close, each => by
    rw [Fragment.code, List.forall_mem_cons, List.forall_mem_append] at each
    obtain ⟨first, inside, last⟩ := each
    rw [Fragment.lines, List.forall_mem_cons, List.forall_mem_append, List.forall_mem_map]
    exact ⟨h.behind level header first, linesOfAll h (level + 1) body inside, fun text mem =>
      h.behind level text (last text mem)⟩
termination_by structural f => f

theorem linesOfAll (h : HeldByLines indent p) (level : Nat) : (fs : List Fragment) →
    (∀ text ∈ Fragment.codeOfAll fs, p text) → ∀ line ∈ Fragment.linesOfAll indent level fs, p line
  | [], _ => nofun
  | f :: rest, each => by
    rw [Fragment.codeOfAll, List.forall_mem_append] at each
    rw [Fragment.linesOfAll, List.forall_mem_append]
    exact ⟨lines h level f each.1, linesOfAll h level rest each.2⟩
termination_by structural fs => fs

end

end HeldByLines

/-- Lines without newlines stay such. -/
theorem heldByLines_oneLine (indent : Indent) : HeldByLines indent fun line => '\n' ∉ line.toList where
  blank := List.not_mem_nil
  comment _ _ mem := (isLine_of_mem_commentLines mem).1
  behind level line oneLine := by
    unfold behind
    split
    · exact List.not_mem_nil
    · simpa using ⟨newline_not_mem_margin indent level, oneLine⟩

/-- Whole lines stay such. -/
theorem heldByLines_isLine (indent : Indent) : HeldByLines indent IsLine where
  blank := by decide
  comment _ _ := isLine_of_mem_commentLines
  behind level _ := isLine_behind level

/-- Code whose lines are whole is read back line by line. -/
theorem linesOf_render {indent : Indent} {fs : List Fragment}
    (whole : ∀ text ∈ Fragment.codeOfAll fs, IsLine text) :
    Text.linesOf (render indent fs) = Fragment.linesOfAll indent 0 fs := by
  rw [render_eq]
  exact Text.linesOf_ended ((heldByLines_isLine indent).linesOfAll 0 fs whole)

/-! ## Margins on margins -/

theorem Indent.margin_add (indent : Indent) (m n : Nat) :
    indent.margin (m + n) = indent.margin m ++ indent.margin n := by
  rw [margin, ← List.replicate_append_replicate, String.join_append]
  rfl

theorem behind_behind (outer inner line : String) :
    behind outer (behind inner line) = behind (outer ++ inner) line := by
  by_cases nothing : line = ""
  · simp [behind, nothing]
  · simp [behind, nothing, String.append_assoc]

mutual

/-- Some levels further in, all lines of a fragment get a margin more. -/
theorem Fragment.lines_add (indent : Indent) (m n : Nat) : (f : Fragment) →
    f.lines indent (m + n) = (f.lines indent n).map (behind (indent.margin m))
  | .line text => by simp [lines, behind_behind, Indent.margin_add]
  | .blank => rfl
  | .docComment text => by simp [lines, behind_behind, Indent.margin_add]
  | .block header body close => by
    have inside := linesOfAll_add indent m (n + 1) body
    rw [← Nat.add_assoc] at inside
    simp [lines, inside, behind_behind, Indent.margin_add]
termination_by structural f => f

theorem Fragment.linesOfAll_add (indent : Indent) (m n : Nat) : (fs : List Fragment) →
    linesOfAll indent (m + n) fs = (linesOfAll indent n fs).map (behind (indent.margin m))
  | [] => rfl
  | f :: rest => by
    rw [linesOfAll, linesOfAll, List.map_append, lines_add indent m n f,
      linesOfAll_add indent m n rest]
termination_by structural fs => fs

end

/-! ## Texts -/

/-- A text with a margin in front of each of its lines that is not empty. -/
def shifted (margin text : String) : String :=
  "\n".intercalate ((Text.splitNewlines text.toList).map fun line => behind margin (String.ofList line))

/-- The parts of whole lines between newlines are the lines, and nothing behind the last. -/
theorem splitNewlines_ended {ls : List String} (oneLine : ∀ l ∈ ls, '\n' ∉ l.toList) :
    Text.splitNewlines (ended ls).toList = ls.map String.toList ++ [[]] := by
  induction ls with
  | nil => rfl
  | cons l ls ih =>
    rw [List.forall_mem_cons] at oneLine
    have cut : (ended (l :: ls)).toList = l.toList ++ '\n' :: (ended ls).toList := by
      simp [ended_cons]
    rw [cut, Text.splitNewlines_append_newline, Text.splitNewlines_of_not_mem oneLine.1,
      ih oneLine.2]
    rfl

theorem intercalate_newline (ls : List String) : "\n".intercalate (ls ++ [""]) = ended ls := by
  induction ls with
  | nil => rfl
  | cons l ls ih =>
    rw [List.cons_append, String.intercalate_cons_of_ne_nil (by simp), ih, ended_cons]

theorem shifted_ended (margin : String) {ls : List String} (oneLine : ∀ l ∈ ls, '\n' ∉ l.toList) :
    shifted margin (ended ls) = ended (ls.map (behind margin)) := by
  have pieces : (ls.map String.toList).map (fun line => behind margin (String.ofList line)) =
      ls.map (behind margin) := by
    simp
  rw [shifted, splitNewlines_ended oneLine, List.map_append, pieces, ← intercalate_newline]
  rfl

/-- **Indentation moves a fragment as a whole.** A builder at some level adds what the fragment is at
the outermost level, with as many units of indentation in front of each line that is not empty, and
stays at its level. -/
theorem fragment_shifted (b : Builder) (f : Fragment) (oneLine : ∀ text ∈ f.code, '\n' ∉ text.toList) :
    b.fragment f = { b with
      text := b.text ++ shifted (String.join (List.replicate b.level b.indent.unit))
        (render b.indent [f]) } := by
  have lines : ∀ line ∈ f.lines b.indent 0, '\n' ∉ line.toList :=
    (heldByLines_oneLine b.indent).lines 0 f oneLine
  have alone : render b.indent [f] = ended (f.lines b.indent 0) := by
    rw [render_eq, Fragment.linesOfAll, Fragment.linesOfAll, List.append_nil]
  have inside : f.lines b.indent b.level = (f.lines b.indent 0).map (behind b.margin) :=
    Fragment.lines_add b.indent b.level 0 f
  rw [Builder.fragment_eq, Builder.adding, inside, alone, shifted_ended _ lines]
  rfl

/-- A method with a comment of three lines, at two levels of tabs behind code that is there. -/
def commentedMethod : Fragment :=
  .block ("ping() " ++ openBrace) [.docComment "one\n\ntwo */", .line "",
    .block ("try " ++ openBrace) [.line "go();"] none] (some closeBrace)

theorem fragment_shifted_tabs :
    (∀ text ∈ commentedMethod.code, '\n' ∉ text.toList) ∧
      render .tab [commentedMethod] = ended ["ping() " ++ openBrace, "\t/**", "\t * one", "\t *",
        "\t * two *\\/", "\t */", "", "\ttry " ++ openBrace, "\t\tgo();", closeBrace] ∧
      ((⟨.tab, 2, "class\n"⟩ : Builder).fragment commentedMethod).text = ended ["class",
        "\t\tping() " ++ openBrace, "\t\t\t/**", "\t\t\t * one", "\t\t\t *", "\t\t\t * two *\\/",
        "\t\t\t */", "", "\t\t\ttry " ++ openBrace, "\t\t\t\tgo();", "\t\t" ++ closeBrace] := by
  have oneLine : ∀ text ∈ commentedMethod.code, '\n' ∉ text.toList := by decide
  refine ⟨oneLine, by decide +kernel, ?_⟩
  rw [fragment_shifted _ _ oneLine]
  decide +kernel

end Bindery.Code
