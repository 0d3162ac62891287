import Bindery.Text.Lines

/-!
# Comparing texts

Two texts that differ are shown line by line: every line in which they differ, as it should be and
as it is.
-/

namespace Bindery.Text
set_option autoImplicit false

/-- What stands for a line that is not there. -/
def missingLine : String := "<missing>"

/-- A line in which two texts differ. Lines are counted from one. -/
structure LineDifference where
  line : Nat
  expected : String
  actual : String
deriving Repr, DecidableEq, Inhabited

/-- The difference as text. -/
def LineDifference.text (d : LineDifference) : String :=
  "Line " ++ toString d.line ++ ":\n  expected: " ++ d.expected ++
    "\n  actual:   " ++ d.actual ++ "\n"

/-- The lines in which two texts differ, the first of them having a given number. -/
def differencesFrom (line : Nat) : List String → List String → List LineDifference
  | [], [] => []
  | expected :: rest, [] =>
    (if expected = missingLine then [] else [⟨line, expected, missingLine⟩]) ++
      differencesFrom (line + 1) rest []
  | [], actual :: rest =>
    (if missingLine = actual then [] else [⟨line, missingLine, actual⟩]) ++
      differencesFrom (line + 1) [] rest
  | expected :: rest, actual :: others =>
    (if expected = actual then [] else [⟨line, expected, actual⟩]) ++
      differencesFrom (line + 1) rest others

/-- The lines in which two texts differ. -/
def differences (expected actual : String) : List LineDifference :=
  differencesFrom 1 (linesOf expected) (linesOf actual)

/-- What is said of two texts that differ, nothing if they are equal. -/
def mismatch? (expected actual : String) : Option String :=
  if expected = actual then none
  else some ("Content mismatch:\n" ++ String.join ((differences expected actual).map (·.text)))

end Bindery.Text
