import Bindery.Text.Braces

/-!
# Pieces of code

Code is put together from fragments that know nothing of the depth at which they will stand.
-/

namespace Bindery.Code
set_option autoImplicit false

/-- A piece of code. -/
inductive Fragment where
  /-- One line. -/
  | line (text : String)
  | blank
  /-- A doc comment. -/
  | docComment (text : String)
  /-- A header line, an indented body and, if there is one, a closing line. -/
  | block (header : String) (body : List Fragment) (close : Option String)
deriving Repr, Inhabited

/-- The doc comment of a text that may be missing. -/
def Fragment.ofDoc (doc : Option String) : List Fragment :=
  match doc with
  | some text => [.docComment text]
  | none => []

end Bindery.Code
