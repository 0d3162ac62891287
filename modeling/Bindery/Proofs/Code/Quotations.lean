import Bindery.Proofs.Code.Comments

/-!
# Code and the comments in it

A text with doc comments is looked at as code into which the comments are put. Each comment is closed
once, and what is left without them is the code, which knows nothing of their texts. The text of
fragments is the text of the fragments without their comments, with the comments put into it.
-/

namespace Bindery.Code
set_option autoImplicit false

open Text (ended ended_append)

/-- A file is this code with the doc comments of these texts, in this order, put between its lines.
Each of the comments is closed once. -/
inductive Quotes (indent : Indent) : String → String → List String → Prop where
  | done : Quotes indent "" "" []
  | code (lines : List String) {file code : String} {texts : List String}
    (rest : Quotes indent file code texts) :
    Quotes indent (ended lines ++ file) (ended lines ++ code) texts
  | comment (level : Nat) {text added file code : String} {texts : List String}
    (placed : (⟨indent, level, ""⟩ : Builder).docComment text = ⟨indent, level, added⟩)
    (closed : ClosedOnce (indent.margin level) added) (rest : Quotes indent file code texts) :
    Quotes indent (added ++ file) code (text :: texts)

/-- A text stands somewhere in a file as a doc comment that is closed once. -/
def StandsClosed (indent : Indent) (file text : String) : Prop :=
  ∃ level front added back, file = front ++ added ++ back ∧
    (⟨indent, level, ""⟩ : Builder).docComment text = ⟨indent, level, added⟩ ∧
    ClosedOnce (indent.margin level) added

variable {indent : Indent} {file file' code code' : String} {texts texts' : List String}

theorem StandsClosed.behind {text : String} (front : String) (h : StandsClosed indent file text) :
    StandsClosed indent (front ++ file) text := by
  obtain ⟨level, before, added, back, rfl, placed, closed⟩ := h
  exact ⟨level, front ++ before, added, back, by simp [String.append_assoc], placed, closed⟩

namespace Quotes

/-- Whatever is put into a file stands there closed. -/
theorem standsClosed (h : Quotes indent file code texts) :
    ∀ text ∈ texts, StandsClosed indent file text := by
  induction h with
  | done => nofun
  | code lines rest ih => exact fun text mem => (ih text mem).behind _
  | @comment level text added file _ _ placed closed rest ih =>
    rw [List.forall_mem_cons]
    exact ⟨⟨level, "", added, file, by simp, placed, closed⟩,
      fun text mem => (ih text mem).behind _⟩

theorem lines (lines : List String) : Quotes indent (ended lines) (ended lines) [] := by
  have alone : Quotes indent (ended lines ++ "") (ended lines ++ "") [] := .code lines .done
  rwa [String.append_empty] at alone

theorem docComment (level : Nat) (text : String) :
    Quotes indent (ended ((commentLines text).map (behind (indent.margin level)))) "" [text] := by
  have placed := Builder.docComment_eq ⟨indent, level, ""⟩ text
  rw [Builder.adding, String.empty_append] at placed
  have alone := Quotes.comment level placed (closedOnce_commentLines indent level text) .done
  rwa [String.append_empty] at alone

theorem append (h : Quotes indent file code texts) (h' : Quotes indent file' code' texts') :
    Quotes indent (file ++ file') (code ++ code') (texts ++ texts') := by
  induction h with
  | done => rwa [String.empty_append, String.empty_append]
  | code lines rest ih =>
    rw [String.append_assoc, String.append_assoc]
    exact .code lines ih
  | comment level placed closed rest ih =>
    rw [String.append_assoc]
    exact .comment level placed closed ih

end Quotes

/-! ## Fragments -/

mutual

/-- The texts of the doc comments of a fragment. -/
def Fragment.comments : Fragment → List String
  | .line _ => []
  | .blank => []
  | .docComment text => [text]
  | .block _ body _ => Fragment.commentsOfAll body
termination_by structural fragment => fragment

/-- The texts of the doc comments of fragments. -/
def Fragment.commentsOfAll : List Fragment → List String
  | [] => []
  | f :: rest => Fragment.comments f ++ Fragment.commentsOfAll rest
termination_by structural fragments => fragments

end

mutual

/-- What is left of a fragment without its doc comments. -/
def Fragment.uncommented : Fragment → List Fragment
  | .line text => [.line text]
  | .blank => [.blank]
  | .docComment _ => []
  | .block header body close => [.block header (Fragment.uncommentedAll body) close]
termination_by structural fragment => fragment

/-- What is left of fragments without their doc comments. -/
def Fragment.uncommentedAll : List Fragment → List Fragment
  | [] => []
  | f :: rest => Fragment.uncommented f ++ Fragment.uncommentedAll rest
termination_by structural fragments => fragments

end

namespace Fragment

theorem commentsOfAll_append (fs gs : List Fragment) :
    commentsOfAll (fs ++ gs) = commentsOfAll fs ++ commentsOfAll gs := by
  induction fs with
  | nil => rfl
  | cons f fs ih => rw [List.cons_append, commentsOfAll, commentsOfAll, ih, List.append_assoc]

theorem uncommentedAll_append (fs gs : List Fragment) :
    uncommentedAll (fs ++ gs) = uncommentedAll fs ++ uncommentedAll gs := by
  induction fs with
  | nil => rfl
  | cons f fs ih => rw [List.cons_append, uncommentedAll, uncommentedAll, ih, List.append_assoc]

theorem commentsOfAll_ofDoc (doc : Option String) : commentsOfAll (ofDoc doc) = doc.toList := by
  cases doc <;> rfl

theorem uncommentedAll_ofDoc (doc : Option String) : uncommentedAll (ofDoc doc) = [] := by
  cases doc <;> rfl

theorem commentsOfAll_line (lines : List String) : commentsOfAll (lines.map .line) = [] := by
  induction lines with
  | nil => rfl
  | cons line lines ih => rw [List.map_cons, commentsOfAll, ih]; rfl

theorem uncommentedAll_line (lines : List String) :
    uncommentedAll (lines.map .line) = lines.map .line := by
  induction lines with
  | nil => rfl
  | cons line lines ih => rw [List.map_cons, uncommentedAll, ih]; rfl

mutual

theorem quotes (indent : Indent) (level : Nat) : (f : Fragment) →
    Quotes indent (ended (f.lines indent level)) (ended (linesOfAll indent level f.uncommented))
      f.comments
  | .line _ => .lines _
  | .blank => .lines _
  | .docComment text => .docComment level text
  | .block header body close => by
    have inside := quotes_all indent (level + 1) body
    have closing : Quotes indent (ended (close.toList.map (behind (indent.margin level))))
        (ended (close.toList.map (behind (indent.margin level)))) [] := .lines _
    have block := inside.append closing
    rw [List.append_nil, ← ended_append, ← ended_append] at block
    have whole := Quotes.code [behind (indent.margin level) header] block
    rw [← ended_append, ← ended_append] at whole
    rwa [uncommented, linesOfAll, linesOfAll, List.append_nil]
termination_by structural f => f

/-- The text of fragments is that of the fragments without their comments, and these put into it. -/
theorem quotes_all (indent : Indent) (level : Nat) : (fs : List Fragment) →
    Quotes indent (ended (linesOfAll indent level fs))
      (ended (linesOfAll indent level (uncommentedAll fs))) (commentsOfAll fs)
  | [] => .done
  | f :: rest => by
    rw [linesOfAll, uncommentedAll, linesOfAll_append, ended_append, ended_append]
    exact (quotes indent level f).append (quotes_all indent level rest)
termination_by structural fs => fs

end

theorem quotes_render (indent : Indent) (fs : List Fragment) :
    Quotes indent (render indent fs) (render indent (uncommentedAll fs)) (commentsOfAll fs) := by
  rw [render_eq, render_eq]
  exact quotes_all indent 0 fs

end Fragment

end Bindery.Code
