import Bindery.Code.Builder
import Bindery.Proofs.Text.Lines

/-!
# What a builder adds

A builder adds whole lines and forgets nothing, so what it adds for a fragment depends only on the
fragment, the indentation and the level. `Fragment.lines` lists these lines without a builder.
-/

namespace Bindery.Code
set_option autoImplicit false

open Text (ended ended_append ended_cons ended_nil)

/-- The text in front of the lines of a level. -/
def Indent.margin (indent : Indent) (level : Nat) : String :=
  String.join (List.replicate level indent.unit)

@[simp] theorem Indent.margin_zero (indent : Indent) : indent.margin 0 = "" := rfl

/-- A line behind a margin. An empty line gets none. -/
def behind (margin line : String) : String :=
  if line = "" then "" else margin ++ line

@[simp] theorem behind_empty (line : String) : behind "" line = line := by
  unfold behind
  split
  · next nothing => exact nothing.symm
  · exact String.empty_append

@[simp] theorem map_behind_empty (ls : List String) : ls.map (behind "") = ls := by
  rw [List.map_congr_left fun line _ => behind_empty line, List.map_id']

/-- The lines of a doc comment, without margins. -/
def commentLines (text : String) : List String :=
  let cs := escapeCommentEnd text.toList
  if cs.contains '\n' then "/**" :: ((Text.lines cs).map Builder.commentLine ++ [" */"])
  else ["/** " ++ String.ofList cs ++ " */"]

mutual

/-- The lines of a fragment at a level. -/
def Fragment.lines (indent : Indent) (level : Nat) : Fragment → List String
  | .line s => [behind (indent.margin level) s]
  | .blank => [""]
  | .docComment text => (commentLines text).map (behind (indent.margin level))
  | .block header body close =>
    behind (indent.margin level) header ::
      (Fragment.linesOfAll indent (level + 1) body ++
        close.toList.map (behind (indent.margin level)))
termination_by structural fragment => fragment

/-- The lines of fragments at a level. -/
def Fragment.linesOfAll (indent : Indent) (level : Nat) : List Fragment → List String
  | [] => []
  | f :: rest => Fragment.lines indent level f ++ Fragment.linesOfAll indent level rest
termination_by structural fragments => fragments

end

theorem Fragment.linesOfAll_append (indent : Indent) (level : Nat) (fs gs : List Fragment) :
    linesOfAll indent level (fs ++ gs) = linesOfAll indent level fs ++ linesOfAll indent level gs := by
  induction fs with
  | nil => rfl
  | cons f fs ih => rw [List.cons_append, linesOfAll, linesOfAll, ih, List.append_assoc]

namespace Builder

/-- Adds lines that have their margin. -/
def adding (b : Builder) (ls : List String) : Builder :=
  { b with text := b.text ++ ended ls }

variable (b : Builder)

@[simp] theorem adding_nil : b.adding [] = b := by
  simp [adding]

@[simp] theorem adding_adding (ls ls' : List String) :
    (b.adding ls).adding ls' = b.adding (ls ++ ls') := by
  simp [adding, ended_append, String.append_assoc]

@[simp] theorem indent_adding (ls : List String) : (b.adding ls).indent = b.indent := rfl

@[simp] theorem level_adding (ls : List String) : (b.adding ls).level = b.level := rfl

@[simp] theorem indent_indented : b.indented.indent = b.indent := rfl

@[simp] theorem level_indented : b.indented.level = b.level + 1 := rfl

@[simp] theorem margin_adding (ls : List String) : (b.adding ls).margin = b.margin := rfl

@[simp] theorem indented_adding (ls : List String) : (b.adding ls).indented = b.indented.adding ls :=
  rfl

@[simp] theorem dedented_indented_adding (ls : List String) :
    (b.indented.adding ls).dedented = b.adding ls := rfl

theorem margin_eq : b.margin = b.indent.margin b.level := rfl

theorem line_eq (s : String) : b.line s = b.adding [behind b.margin s] := by
  unfold line adding behind
  split
  · simp
  · simp [String.append_assoc]

theorem foldl_line (ls : List String) : ls.foldl line b = b.adding (ls.map (behind b.margin)) := by
  induction ls generalizing b with
  | nil => simp
  | cons l ls ih => rw [List.foldl_cons, line_eq, ih]; simp

theorem docComment_eq (text : String) :
    b.docComment text = b.adding ((commentLines text).map (behind b.margin)) := by
  unfold docComment commentLines
  simp only
  split
  · simp [line_eq, foldl_line]
  · simp [adding, behind, String.append_assoc]

mutual

theorem fragment_eq (b : Builder) : (f : Fragment) →
    b.fragment f = b.adding (f.lines b.indent b.level)
  | .line s => by rw [fragment, line_eq]; rfl
  | .blank => by simp [fragment, blank, Fragment.lines, adding]
  | .docComment text => by rw [fragment, docComment_eq]; rfl
  | .block header body close => by
    cases close <;>
      simp [fragment, line_eq, fragments_eq _ body, Fragment.lines, margin_eq]
termination_by structural f => f

theorem fragments_eq (b : Builder) : (fs : List Fragment) →
    b.fragments fs = b.adding (Fragment.linesOfAll b.indent b.level fs)
  | [] => by simp [fragments, Fragment.linesOfAll]
  | f :: rest => by
    rw [fragments, fragments_eq _ rest, fragment_eq b f, adding_adding]
    rfl
termination_by structural fs => fs

end

end Builder

theorem render_eq (indent : Indent) (fs : List Fragment) :
    render indent fs = ended (Fragment.linesOfAll indent 0 fs) := by
  rw [render, Builder.fragments_eq]
  exact String.empty_append

/-- Lines at the outermost level have no margin. -/
theorem linesOfAll_line (indent : Indent) (ls : List String) :
    Fragment.linesOfAll indent 0 (ls.map .line) = ls := by
  induction ls with
  | nil => rfl
  | cons l ls ih =>
    rw [List.map_cons, Fragment.linesOfAll, Fragment.lines, Indent.margin_zero, behind_empty, ih]
    rfl

theorem render_append (indent : Indent) (fs gs : List Fragment) :
    render indent (fs ++ gs) = render indent fs ++ render indent gs := by
  rw [render_eq, render_eq, render_eq, Fragment.linesOfAll_append, ended_append]

theorem render_line (indent : Indent) (text : String) :
    render indent [.line text] = text ++ "\n" := by
  have alone : Fragment.linesOfAll indent 0 [.line text] = [text] := linesOfAll_line indent [text]
  rw [render_eq, alone, ended_cons, ended_nil, String.append_empty]

theorem render_blank (indent : Indent) (fs : List Fragment) :
    render indent (.blank :: fs) = "\n" ++ render indent fs :=
  render_append indent [.blank] fs

end Bindery.Code
