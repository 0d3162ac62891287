import Bindery.Text.Blank
import Bindery.Text.Letter

/-!
# Words of a name

Command names mix `snake_case`, `kebab-case` and dotted forms. Every separator starts a new word;
`pascalCase` and `camelCase` join the words again, changing only their first letters.
-/

namespace Bindery.Text
set_option autoImplicit false

/-- A character that ends a word and belongs to none. -/
def isSeparator (c : Char) : Bool :=
  c == '_' || c == '-' || c == '.' || isBlank c

/-- The parts between separators, empty ones included. -/
def splitSeparators : List Char → List (List Char)
  | [] => [[]]
  | c :: cs =>
    if isSeparator c then [] :: splitSeparators cs
    else match splitSeparators cs with
      | [] => [[c]]
      | part :: parts => (c :: part) :: parts

/-- The words of a name: its non-empty parts between separators. -/
def words (cs : List Char) : List (List Char) :=
  (splitSeparators cs).filter (!·.isEmpty)

/-- A word with its first letter in upper case. -/
def capitalize : List Char → List Char
  | [] => []
  | c :: cs => upper c ++ cs

/-- A word with its first letter in lower case. -/
def decapitalize : List Char → List Char
  | [] => []
  | c :: cs => lower c ++ cs

/-- All words capitalized and joined: `dev-forget-channel` becomes `DevForgetChannel`. -/
def pascalCase (name : String) : String :=
  String.ofList ((words name.toList).flatMap capitalize)

/-- The first word decapitalized, the others capitalized: `dev-forget-channel` becomes
`devForgetChannel`. -/
def camelCase (name : String) : String :=
  match words name.toList with
  | [] => ""
  | first :: rest => String.ofList (decapitalize first ++ rest.flatMap capitalize)

end Bindery.Text
