import Bindery.Text.Bytes
import Bindery.Toml.Basic
import Bindery.Toml.Scalar

/-!
# Reading a settings file

Lines hold a header in brackets, a key with a value, or nothing; a comment starts at `#`. A key and
its value stand on one line, but the parts of arrays and of tables in braces may be spread over
several.

Strings are written in double quotes with escapes or in single quotes without, on one line or,
between three quotes, over several.
-/

namespace Bindery.Toml
set_option autoImplicit false

/-- Whether a character may stand in comments and strings as itself. -/
def isPlain (c : Char) : Bool :=
  c == '\t' || (32 ≤ c.toNat && c.toNat != 127)

/-- The text behind a line end, if it starts with one. -/
def afterNewline? : List Char → Option (List Char)
  | '\n' :: cs => some cs
  | '\r' :: '\n' :: cs => some cs
  | _ => none

/-- The text behind a comment, if it starts with one; else the text. -/
def skipComment : List Char → List Char
  | '#' :: cs => cs.dropWhile isPlain
  | cs => cs

/-- The text behind the rest of a line, which may be blank or a comment. -/
def endLine? (cs : List Char) : Option (List Char) :=
  match skipComment (skipGaps cs) with
  | [] => some []
  | cs => afterNewline? cs

/-- The text behind blanks, comments and line ends, at most `fuel` of the latter. -/
def skipLines : Nat → List Char → List Char
  | 0, cs => cs
  | fuel + 1, cs =>
    match afterNewline? (skipComment (skipGaps cs)) with
    | some rest => skipLines fuel rest
    | none => skipGaps cs

/-- The text behind all blanks, comments and line ends it starts with. -/
def skipAll (cs : List Char) : List Char :=
  skipLines (cs.length + 1) cs

/-- The value of a hexadecimal digit. -/
def hexValue? (c : Char) : Option Nat :=
  if '0' ≤ c && c ≤ '9' then some (c.toNat - 48)
  else if 'a' ≤ c && c ≤ 'f' then some (c.toNat - 87)
  else if 'A' ≤ c && c ≤ 'F' then some (c.toNat - 55)
  else none

/-- The character whose code is written in the first `n` hexadecimal digits. -/
def codePoint? (n : Nat) (cs : List Char) : Option (Char × List Char) := do
  let digits := cs.take n
  if digits.length < n then none
  else
    let code ← digits.foldlM (fun code c => (hexValue? c).map (code * 16 + ·)) 0
    if code.isValidChar then some (Char.ofNat code, cs.drop n) else none

/-- The character that an escape stands for, behind its backslash. -/
def escape? : List Char → Option (Char × List Char)
  | '"' :: cs => some ('"', cs)
  | '\\' :: cs => some ('\\', cs)
  | 'b' :: cs => some (Char.ofNat 8, cs)
  | 't' :: cs => some ('\t', cs)
  | 'n' :: cs => some ('\n', cs)
  | 'f' :: cs => some (Char.ofNat 12, cs)
  | 'r' :: cs => some ('\r', cs)
  | 'e' :: cs => some (Char.ofNat 27, cs)
  | 'x' :: cs => codePoint? 2 cs
  | 'u' :: cs => codePoint? 4 cs
  | 'U' :: cs => codePoint? 8 cs
  | _ => none

/-- Reads a string on one line behind its opening quote. -/
def readLine (quote : Char) : Nat → List Char → Option (List Char × List Char)
  | 0, _ => none
  | _ + 1, [] => none
  | fuel + 1, c :: cs =>
    if c = quote then some ([], cs)
    else if c = '\\' && quote = '"' then do
      let (c, cs) ← escape? cs
      let (content, cs) ← readLine quote fuel cs
      return (c :: content, cs)
    else if isPlain c then (readLine quote fuel cs).map fun r => (c :: r.1, r.2)
    else none

/-- The text behind the blanks and line ends it starts with. -/
def skipWhite : List Char → List Char
  | '\n' :: cs => skipWhite cs
  | '\r' :: '\n' :: cs => skipWhite cs
  | c :: cs => if isGap c then skipWhite cs else c :: cs
  | [] => []

/-- The text behind a backslash that ends a line: behind all blanks and line ends that follow. -/
def continued? (cs : List Char) : Option (List Char) :=
  (afterNewline? (skipGaps cs)).map skipWhite

/-- Reads a string over several lines behind its opening quotes. Line ends belong to it as they are
written. Three to five quotes end it, of which all but the last three belong to it. -/
def readLines (quote : Char) : Nat → List Char → Option (List Char × List Char)
  | 0, _ => none
  | _ + 1, [] => none
  | fuel + 1, c :: cs =>
    if c = quote then
      let run := 1 + (cs.takeWhile (· == quote)).length
      if run < 3 then (readLines quote fuel cs).map fun r => (c :: r.1, r.2)
      else if run ≤ 5 then some (List.replicate (run - 3) quote, cs.drop (run - 1))
      else none
    else if c = '\\' && quote = '"' then
      match continued? cs with
      | some cs => readLines quote fuel cs
      | none => do
        let (c, cs) ← escape? cs
        let (content, cs) ← readLines quote fuel cs
        return (c :: content, cs)
    else if isPlain c || (afterNewline? (c :: cs)).isSome then
      (readLines quote fuel cs).map fun r => (c :: r.1, r.2)
    else none

/-- Reads a string, if the text starts with one that may span lines or not. -/
def readString? (cs : List Char) : Option (String × List Char) :=
  match cs with
  | c :: rest =>
    if c = '"' || c = singleQuote then
      let content :=
        match rest with
        | a :: b :: body =>
          if a = c && b = c then readLines c cs.length ((afterNewline? body).getD body)
          else readLine c cs.length rest
        | _ => readLine c cs.length rest
      content.map fun r => (String.ofList r.1, r.2)
    else none
  | [] => none

/-- Whether a character may stand in a key without quotes. -/
def isBareKey (c : Char) : Bool :=
  c.isAlphanum || c == '_' || c == '-'

/-- Reads one key, in quotes on one line or without. -/
def readKey? (cs : List Char) : Option (String × List Char) :=
  match cs with
  | c :: rest =>
    if c = '"' || c = singleQuote then
      (readLine c cs.length rest).map fun r => (String.ofList r.1, r.2)
    else
      match cs.takeWhile isBareKey with
      | [] => none
      | key => some (String.ofList key, cs.dropWhile isBareKey)
  | [] => none

/-- Reads keys with dots between them, at most `fuel` of them. -/
def readKeys : Nat → List Char → Option (List String × List Char)
  | 0, _ => none
  | fuel + 1, cs => do
    let (key, cs) ← readKey? (skipGaps cs)
    match skipGaps cs with
    | '.' :: cs =>
      let (keys, cs) ← readKeys fuel cs
      return (key :: keys, cs)
    | cs => return ([key], cs)

/-- How many arrays and tables may stand inside each other, and how many keys in a dotted key. -/
def maxDepth : Nat := 80

/-- Reads a dotted key. -/
def readDotted? (cs : List Char) : Option (List String × List Char) := do
  let (keys, cs) ← readKeys cs.length cs
  if keys.length ≤ maxDepth then some (keys, cs) else none

/-- Reads a dotted key and the equals sign behind it, around which may stand what `skip` skips. -/
def readAssigned? (skip : List Char → List Char) (cs : List Char) :
    Option (List String × List Char) := do
  let (keys, cs) ← readDotted? cs
  match skip cs with
  | '=' :: cs => return (keys, skip cs)
  | _ => none

/-- Reads the items of an array behind its bracket or a comma, at most `fuel` of them. -/
def readItems (value : List Char → Option (Toml × List Char)) :
    Nat → List Char → Option (List Toml × List Char)
  | 0, _ => none
  | fuel + 1, cs =>
    match skipAll cs with
    | ']' :: cs => some ([], cs)
    | cs => do
      let (item, cs) ← value cs
      match skipAll cs with
      | ',' :: cs =>
        let (items, cs) ← readItems value fuel cs
        return (item :: items, cs)
      | ']' :: cs => return ([item], cs)
      | _ => none

/-- Reads the entries of a table in braces behind its brace or a comma, at most `fuel` of them. -/
def readEntries (value : List Char → Option (Toml × List Char)) :
    Nat → List Char → Entries → Option (Entries × List Char)
  | 0, _, _ => none
  | fuel + 1, cs, entries =>
    match skipAll cs with
    | '}' :: cs => some (entries, cs)
    | cs => do
      let (keys, cs) ← readAssigned? skipAll cs
      let (item, cs) ← value cs
      let entries ← setDotted item keys entries
      match skipAll cs with
      | ',' :: cs => readEntries value fuel cs entries
      | '}' :: cs => return (entries, cs)
      | _ => none

/-- Reads a value with at most `depth` arrays and tables inside each other. -/
def readValue : Nat → List Char → Option (Toml × List Char)
  | depth + 1, '[' :: cs =>
    (readItems (readValue depth) (cs.length + 1) cs).map fun r => (.array false r.1, r.2)
  | depth + 1, '{' :: cs =>
    (readEntries (readValue depth) (cs.length + 1) cs []).map fun r => (.table .inline r.1, r.2)
  | _, cs =>
    match readString? cs with
    | some (content, cs) => some (.string content, cs)
    | none => (afterScalar? cs).map fun cs => (.other, cs)

/-- What is read so far: all entries, and the keys of the header they stand under. -/
structure Draft where
  entries : Entries
  header : List String

/-- Reads one line: a header, a key with its value, or nothing. -/
def readStatement (draft : Draft) (cs : List Char) : Option (Draft × List Char) :=
  match skipGaps cs with
  | '[' :: '[' :: cs => do
    let (keys, cs) ← readDotted? cs
    match cs with
    | ']' :: ']' :: cs =>
      return (⟨← atHeader openItem keys draft.entries, keys⟩, ← endLine? cs)
    | _ => none
  | '[' :: cs => do
    let (keys, cs) ← readDotted? cs
    match cs with
    | ']' :: cs => return (⟨← atHeader openTable keys draft.entries, keys⟩, ← endLine? cs)
    | _ => none
  | cs =>
    match endLine? cs with
    | some rest => some (draft, rest)
    | none => do
      let (keys, cs) ← readAssigned? skipGaps cs
      let (value, cs) ← readValue maxDepth cs
      return ({ draft with entries := ← setUnder draft.header keys value draft.entries },
        ← endLine? cs)

/-- Reads lines to the end of the text, at most `fuel` of them. -/
def readStatements : Nat → Draft → List Char → Option Draft
  | _, draft, [] => some draft
  | 0, _, _ => none
  | fuel + 1, draft, cs => do
    let (draft, cs) ← readStatement draft cs
    readStatements fuel draft cs

/-- The byte order mark a text may start with. -/
def byteOrderMark : Char := Char.ofNat 0xFEFF

/-- The entries that a settings file holds. -/
def parse? (text : String) : Option Entries :=
  let cs := match text.toList with
    | c :: rest => if c = byteOrderMark then rest else c :: rest
    | [] => []
  (readStatements (cs.length + 1) ⟨[], []⟩ cs).map (·.entries)

end Bindery.Toml
