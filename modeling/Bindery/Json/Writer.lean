import Bindery.Binary64.Shortest
import Bindery.Json.Basic
import Bindery.Text.Braces

/-!
# Writing JSON

`compact` writes a value without blanks, `pretty` with two spaces for each level. Strings escape
quotes, backslashes and control characters, and nothing else.
-/

namespace Bindery.Json
set_option autoImplicit false

open Text (openBrace closeBrace)

/-- A hexadecimal digit in lower case. -/
def hexDigit (n : Nat) : Char :=
  Nat.digitChar (n % 16)

/-- A character as it stands inside a quoted string. -/
def escapeChar (c : Char) : List Char :=
  if c = '"' then ['\\', '"']
  else if c = '\\' then ['\\', '\\']
  else if c = '\n' then ['\\', 'n']
  else if c = '\r' then ['\\', 'r']
  else if c = '\t' then ['\\', 't']
  else if c.toNat = 8 then ['\\', 'b']
  else if c.toNat = 12 then ['\\', 'f']
  else if c.toNat < 32 then
    ['\\', 'u', '0', '0', hexDigit (c.toNat / 16), hexDigit c.toNat]
  else [c]

/-- A string in quotes. -/
def quote (s : String) : String :=
  String.ofList (['"'] ++ s.toList.flatMap escapeChar ++ ['"'])

/-- A number as text. -/
def Number.text : Number → String
  | .int i => toString i
  | .real x => String.ofList x.text

/-- A truth value as text. -/
def boolText (b : Bool) : String :=
  if b then "true" else "false"

mutual

/-- A value on one line, without blanks. -/
def compact : Json → String
  | .null => "null"
  | .bool b => boolText b
  | .number n => n.text
  | .string s => quote s
  | .array items => "[" ++ compactItems items ++ "]"
  | .object fields => openBrace ++ compactFields fields ++ closeBrace
termination_by structural value => value

/-- The items of an array, with commas between them. -/
def compactItems : List Json → String
  | [] => ""
  | [item] => compact item
  | item :: rest => compact item ++ "," ++ compactItems rest
termination_by structural items => items

/-- The fields of an object, with commas between them. -/
def compactFields : List (String × Json) → String
  | [] => ""
  | [(key, value)] => quote key ++ ":" ++ compact value
  | (key, value) :: rest => quote key ++ ":" ++ compact value ++ "," ++ compactFields rest
termination_by structural fields => fields

end

/-- The blanks in front of a line at a level. -/
def pad (level : Nat) : String :=
  String.ofList (List.replicate (2 * level) ' ')

mutual

/-- A value over several lines, its own first line at `level`. -/
def prettyAt (level : Nat) : Json → String
  | .null => "null"
  | .bool b => boolText b
  | .number n => n.text
  | .string s => quote s
  | .array [] => "[]"
  | .array items => "[\n" ++ prettyItems (level + 1) items ++ "\n" ++ pad level ++ "]"
  | .object [] => "{}"
  | .object fields =>
    openBrace ++ "\n" ++ prettyFields (level + 1) fields ++ "\n" ++ pad level ++ closeBrace
termination_by structural value => value

/-- The items of an array, each on lines of its own. -/
def prettyItems (level : Nat) : List Json → String
  | [] => ""
  | [item] => pad level ++ prettyAt level item
  | item :: rest => pad level ++ prettyAt level item ++ ",\n" ++ prettyItems level rest
termination_by structural items => items

/-- The fields of an object, each on lines of its own. -/
def prettyFields (level : Nat) : List (String × Json) → String
  | [] => ""
  | [(key, value)] => pad level ++ quote key ++ ": " ++ prettyAt level value
  | (key, value) :: rest =>
    pad level ++ quote key ++ ": " ++ prettyAt level value ++ ",\n" ++ prettyFields level rest
termination_by structural fields => fields

end

/-- A value over several lines. -/
def pretty (value : Json) : String :=
  prettyAt 0 value

end Bindery.Json
