import Bindery.Code.Comment
import Bindery.Proofs.Text.Search

/-!
# Texts that end no comment

A star in front of a slash ends a comment. In an escaped text no star stands in front of a slash, and
a text of that kind is left as it is.
-/

namespace Bindery.Code
set_option autoImplicit false

/-- The characters that end a comment. -/
def commentEnd : List Char := ['*', '/']

/-- Nothing in the text ends a comment. -/
def Unended (cs : List Char) : Prop :=
  ¬commentEnd <:+: cs

instance (cs : List Char) : Decidable (Unended cs) :=
  inferInstanceAs (Decidable ¬commentEnd <:+: cs)

namespace Unended

variable {xs ys cs : List Char}

theorem of_infix (h : Unended cs) (part : xs <:+: cs) : Unended xs :=
  fun inside => h (inside.trans part)

/-- A character that is not of those two keeps a star and a slash apart. -/
theorem append_cons {c : Char} (apart : c ∉ commentEnd) (h : Unended xs) (h' : Unended ys) :
    Unended (xs ++ c :: ys) :=
  fun inside => (Text.infix_of_append_cons apart inside).elim h h'

theorem append_starless (starless : '*' ∉ xs) (h : Unended ys) : Unended (xs ++ ys) := by
  induction xs with
  | nil => exact h
  | cons c xs ih =>
    rw [List.mem_cons, not_or] at starless
    have other : commentEnd.head? ≠ some c := fun same => starless.1 (Option.some.inj same)
    exact fun inside => ih starless.2 (Text.infix_of_cons other inside)

end Unended

/-! ## Escaped text -/

theorem head?_escapeCommentEnd (cs : List Char) : (escapeCommentEnd cs).head? = cs.head? := by
  unfold escapeCommentEnd
  split <;> rfl

theorem unended_escapeCommentEnd (cs : List Char) : Unended (escapeCommentEnd cs) := by
  fun_induction escapeCommentEnd cs with
  | case1 cs ih =>
    have rest : Unended ('/' :: escapeCommentEnd cs) :=
      ih.append_starless (show '*' ∉ ['/'] by decide)
    exact .append_cons (show '\\' ∉ commentEnd by decide) (show Unended ['*'] by decide) rest
  | case2 c cs other ih =>
    intro inside
    rcases List.infix_cons_iff.1 inside with start | later
    · -- The slash of an end would have been the first character of the rest all along.
      obtain ⟨rfl, next, follows⟩ := List.cons_prefix_cons.1 start
      have slash : cs.head? = some '/' := by
        rw [← head?_escapeCommentEnd, ← follows]
        rfl
      obtain ⟨rest, rfl⟩ := List.head?_eq_some_iff.1 slash
      exact other rest rfl rfl
    · exact ih later
  | case3 => decide

theorem escapeCommentEnd_eq_self {cs : List Char} (h : Unended cs) : escapeCommentEnd cs = cs := by
  fun_induction escapeCommentEnd cs with
  | case1 cs ih => exact absurd (List.prefix_append ['*', '/'] cs).isInfix h
  | case2 c cs _ ih => rw [ih (h.of_infix (List.suffix_cons c cs).isInfix)]
  | case3 => rfl

end Bindery.Code
