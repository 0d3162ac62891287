/-!
# Braces

The two braces, each as a text of its own, and a text between them.
-/

namespace Bindery.Text
set_option autoImplicit false

/-- The brace that opens. -/
def openBrace : String := String.ofList ['{']

/-- The brace that closes. -/
def closeBrace : String := String.ofList ['}']

/-- A text between braces, with a blank on either side. -/
def inBraces (inner : String) : String :=
  openBrace ++ " " ++ inner ++ " " ++ closeBrace

@[simp]
theorem toList_openBrace : openBrace.toList = ['{'] :=
  String.toList_ofList

@[simp]
theorem toList_closeBrace : closeBrace.toList = ['}'] :=
  String.toList_ofList

@[simp]
theorem toList_inBraces (inner : String) :
    (inBraces inner).toList = ['{', ' '] ++ inner.toList ++ [' ', '}'] := by
  simp [inBraces]

end Bindery.Text
