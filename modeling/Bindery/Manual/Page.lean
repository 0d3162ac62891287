import Bindery.Code.Comment
import Bindery.Text.Blank
import Bindery.Text.Lines
import Bindery.Text.Search

/-!
# Manual pages

A manual page is a list of lines in which two marks are looked for: the line that opens the
description and the line that opens the section on return values. The synopsis stands above the
first, the description between the two.

The synopsis may be wrapped and may have headings around it. It is found by reading upwards from
the description to the nearest blank line. A line that starts with a capital letter is a heading and
is left out, together with the line above it.
-/

namespace Bindery.Manual
set_option autoImplicit false

/-- The lines of a text, each without a carriage return at its end. -/
def splitLines (text : String) : List String :=
  (Text.splitNewlines text.toList).map fun line => String.ofList (Text.dropFinal '\r' line)

/-- What a line contains that opens the description. -/
def descriptionMark : String := "DESCRIPTION"

/-- What a line contains that opens the section on return values. -/
def returnValueMark : String := "RETURN VALUE"

/-- The position of the first line that contains a mark. -/
def markedLine? (mark : String) (lines : List String) : Option Nat :=
  lines.findIdx? fun line => Text.occursIn mark.toList line.toList

/-- Whether a line starts with a capital letter of ASCII. -/
def isHeading (line : String) : Bool :=
  match line.toList with
  | c :: _ => c.isUpper
  | [] => false

/-- Reads upwards through the first `n` lines to the nearest blank one: the trimmed lines on the
way, in the order of the page, without headings and the lines directly above these. -/
def linesAbove (lines : List String) : Nat → List String
  | 0 => []
  | i + 1 =>
    match lines[i]? with
    | none => []
    | some line =>
      let line := Text.trimmed line
      if line = "" then []
      else if isHeading line then
        match i with
        | 0 => []
        | j + 1 => linesAbove lines j
      else linesAbove lines i ++ [line]

/-- The synopsis above the line at `mark`, the line directly above the mark left out. -/
def synopsisAbove (lines : List String) (mark : Nat) : String :=
  " ".intercalate (linesAbove lines (mark - 1))

/-- A way to find the synopsis in the lines of a page, given the line that opens the description. -/
abbrev Locator := List String → Nat → String

/-- A page and where its marks are. -/
structure Page where
  lines : List String
  description : Option Nat
  returnValue : Option Nat
deriving Repr, DecidableEq, Inhabited

namespace Page

/-- The page a text holds. -/
def ofText (text : String) : Page :=
  let lines := splitLines text
  ⟨lines, markedLine? descriptionMark lines, markedLine? returnValueMark lines⟩

/-- The first line of a page. -/
def heading (page : Page) : String :=
  page.lines.head?.getD ""

/-- The synopsis of a page that has a description. -/
def synopsis? (page : Page) (locator : Locator) : Option String :=
  page.description.map (locator page.lines)

/-- A line of prose as it may stand in a comment, without the backslashes of its markdown. -/
def proseLine (line : String) : String :=
  String.ofList (Code.escapeCommentEnd (line.toList.filter (· != '\\')))

/-- Lines without the blank ones at either end. -/
def trimLines (lines : List String) : List String :=
  ((lines.dropWhile Text.isBlankText).reverse.dropWhile Text.isBlankText).reverse

/-- The lines from two below the opening of the description to two above the section on return
values, or to the end of the page. -/
def descriptionLines (page : Page) : List String :=
  match page.description with
  | none => []
  | some mark =>
    let stop := match page.returnValue with
      | some mark => mark - 1
      | none => page.lines.length
    (page.lines.take stop).drop (mark + 2)

/-- The prose of the description. -/
def prose (page : Page) : List String :=
  trimLines (page.descriptionLines.map proseLine)

end Page

/-- The text of a page in its usual layout. -/
def layout (command synopsis description : String) : String :=
  "lightning-" ++ command ++ " -- Command " ++ command ++ "\n" ++
  "========================================\n\nSYNOPSIS\n--------\n\n" ++ synopsis ++
  "\n\nDESCRIPTION\n-----------\n\n" ++ description ++
  "\n\nRETURN VALUE\n------------\n\nOn success, an object is returned.\n"

end Bindery.Manual
