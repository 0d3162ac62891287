/-!
# Notices

What a report says, piece by piece. Problems go to the error stream and everything else to the
output stream.
-/

namespace Bindery.Report
set_option autoImplicit false

/-- A piece of a report. -/
inductive Notice where
  /-- What the items below it have in common. -/
  | heading (name : String)
  | item (text : String)
  /-- Something that is there now. -/
  | added (text : String)
  /-- Something that was left out. -/
  | removed (text : String)
  | problem (text : String)
  /-- A line between parts of a report. -/
  | divider (label : String)
  | plain (text : String)
  | blank
deriving Repr, DecidableEq, Inhabited

namespace Notice

/-- The notice as it is shown. -/
def text : Notice → String
  | .heading name => name ++ ":\n"
  | .item text => "  " ++ text ++ "\n"
  | .added text => "  + " ++ text ++ "\n"
  | .removed text => "  - " ++ text ++ "\n"
  | .problem text => text ++ "\n"
  | .divider label => "── " ++ label ++ " ──\n"
  | .plain text => text ++ "\n"
  | .blank => "\n"

/-- Whether the notice goes to the error stream. -/
def isProblem : Notice → Bool
  | .problem _ => true
  | _ => false

end Notice

/-- Notices one below another. -/
def textOf (notices : List Notice) : String :=
  String.join (notices.map Notice.text)

/-- What notices send to the output stream. -/
def outputOf (notices : List Notice) : String :=
  textOf (notices.filter (!·.isProblem))

/-- What notices send to the error stream. -/
def problemsOf (notices : List Notice) : String :=
  textOf (notices.filter (·.isProblem))

/-- Notices under a heading, below a blank line, nothing if there are none. -/
def listed (name : String) (notices : List Notice) : List Notice :=
  if notices.isEmpty then [] else .blank :: .heading name :: notices

/-- A number of things, their name being one that takes an s. -/
def count (n : Nat) (name : String) : String :=
  toString n ++ " " ++ (if n = 1 then name else name ++ "s")

end Bindery.Report
