/-!
# Text inside comments

A text that is put into a comment must not end it.
-/

namespace Bindery.Code
set_option autoImplicit false

/-- A text with every `*/` written `*\/`. -/
def escapeCommentEnd : List Char → List Char
  | '*' :: '/' :: cs => '*' :: '\\' :: '/' :: escapeCommentEnd cs
  | c :: cs => c :: escapeCommentEnd cs
  | [] => []

end Bindery.Code
