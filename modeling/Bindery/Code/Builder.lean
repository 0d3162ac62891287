import Bindery.Code.Comment
import Bindery.Code.Fragment
import Bindery.Text.Blank
import Bindery.Text.Lines

/-!
# Building indented code

A `Builder` holds the text so far and the level at which the next line will stand. Every operation
adds whole lines. Empty lines are never indented, and the text of a doc comment can never end the
comment: `*/` inside it is written `*\/`.
-/

namespace Bindery.Code
set_option autoImplicit false

/-- What one level of indentation consists of. -/
inductive Indent where
  | spaces (width : Nat)
  | tab
deriving Repr, DecidableEq

namespace Indent

/-- Two spaces. -/
def standard : Indent := .spaces 2

instance : Inhabited Indent := ⟨standard⟩

/-- The text of one level. Widths other than two and eight count as four. -/
def unit : Indent → String
  | .spaces 2 => "  "
  | .spaces 8 => "        "
  | .spaces _ => "    "
  | .tab => "\t"

end Indent

/-- The text so far and the level of the next line. -/
structure Builder where
  indent : Indent
  level : Nat
  text : String
deriving Repr, Inhabited

namespace Builder

/-- Nothing yet. -/
def new (indent : Indent) : Builder :=
  ⟨indent, 0, ""⟩

/-- The text in front of a line. -/
def margin (b : Builder) : String :=
  String.join (List.replicate b.level b.indent.unit)

/-- Adds a line. -/
def line (b : Builder) (s : String) : Builder :=
  if s = "" then { b with text := b.text ++ "\n" }
  else { b with text := b.text ++ b.margin ++ s ++ "\n" }

/-- Adds an empty line. -/
def blank (b : Builder) : Builder :=
  { b with text := b.text ++ "\n" }

/-- Goes one level in. -/
def indented (b : Builder) : Builder :=
  { b with level := b.level + 1 }

/-- Goes one level out, if there is one. -/
def dedented (b : Builder) : Builder :=
  { b with level := b.level - 1 }

/-- The line of a doc comment that holds a line of its text. -/
def commentLine (cs : List Char) : String :=
  if Text.allBlank cs then " *" else String.ofList ([' ', '*', ' '] ++ Text.trimEnd cs)

/-- Adds a doc comment: on one line if the text has no newline, else with a line for each of its
lines. -/
def docComment (b : Builder) (text : String) : Builder :=
  let cs := escapeCommentEnd text.toList
  if cs.contains '\n' then
    (((Text.lines cs).map commentLine).foldl line (b.line "/**")).line " */"
  else
    { b with text := b.text ++ b.margin ++ "/** " ++ String.ofList cs ++ " */\n" }

mutual

/-- Adds a fragment. -/
def fragment (b : Builder) : Fragment → Builder
  | .line s => b.line s
  | .blank => b.blank
  | .docComment s => b.docComment s
  | .block header body close =>
    let b := (fragments (b.line header).indented body).dedented
    match close with
    | some s => b.line s
    | none => b
termination_by structural fragment => fragment

/-- Adds fragments one after another. -/
def fragments (b : Builder) : List Fragment → Builder
  | [] => b
  | f :: rest => fragments (b.fragment f) rest
termination_by structural fragments => fragments

end

end Builder

/-- Fragments as text, at the outermost level. -/
def render (indent : Indent) (fragments : List Fragment) : String :=
  ((Builder.new indent).fragments fragments).text

end Bindery.Code
