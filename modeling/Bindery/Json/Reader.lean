import Bindery.Json.Basic

/-!
# Reading JSON

A strict reader: no comments, no trailing commas, no bare control characters in strings, no escapes
of half a surrogate pair, and at most 127 arrays and objects inside each other. A key written twice
keeps its first place and its last value.

Whole numbers that fit 64 bits, signed or unsigned, stay whole. Of any other number the leading
digits that fit 64 bits are taken together with a power of ten; both are rounded, and so is their
product or quotient. A number too large for that is refused.
-/

namespace Bindery.Json
set_option autoImplicit false

/-- Blanks between tokens. -/
def isSpace (c : Char) : Bool :=
  c == ' ' || c == '\n' || c == '\r' || c == '\t'

/-- The text behind its leading blanks. -/
def skipSpace (cs : List Char) : List Char :=
  cs.dropWhile isSpace

/-- The value of a decimal digit. -/
def digit? (c : Char) : Option Nat :=
  if '0' ≤ c && c ≤ '9' then some (c.toNat - 48) else none

/-- The value of a hexadecimal digit of either case. -/
def hexDigit? (c : Char) : Option Nat :=
  if '0' ≤ c && c ≤ '9' then some (c.toNat - 48)
  else if 'a' ≤ c && c ≤ 'f' then some (c.toNat - 87)
  else if 'A' ≤ c && c ≤ 'F' then some (c.toNat - 55)
  else none

/-- The value of four hexadecimal digits. -/
def hex4? (a b c d : Char) : Option Nat := do
  return ((← hexDigit? a) * 16 + (← hexDigit? b)) * 256 + (← hexDigit? c) * 16 + (← hexDigit? d)

/-- Whether a code unit opens a surrogate pair. -/
def isHighSurrogate (n : Nat) : Bool := 0xD800 ≤ n && n ≤ 0xDBFF

/-- Whether a code unit closes a surrogate pair. -/
def isLowSurrogate (n : Nat) : Bool := 0xDC00 ≤ n && n ≤ 0xDFFF

/-- The character behind a backslash that stands for itself or a control character. -/
def simpleEscape? (c : Char) : Option Char :=
  match c with
  | '"' => some '"'
  | '\\' => some '\\'
  | '/' => some '/'
  | 'b' => some (Char.ofNat 8)
  | 'f' => some (Char.ofNat 12)
  | 'n' => some '\n'
  | 'r' => some '\r'
  | 't' => some '\t'
  | _ => none

/-- Reads a string behind its opening quote: its characters, and what follows the closing quote. -/
def readString : List Char → Option (List Char × List Char)
  | [] => none
  | '"' :: cs => some ([], cs)
  | '\\' :: 'u' :: a :: b :: c :: d :: '\\' :: 'u' :: e :: f :: g :: h :: cs =>
    match hex4? a b c d with
    | none => none
    | some n =>
      if isHighSurrogate n then
        match hex4? e f g h with
        | none => none
        | some m =>
          if isLowSurrogate m then
            (readString cs).map fun r =>
              (Char.ofNat (0x10000 + (n - 0xD800) * 0x400 + (m - 0xDC00)) :: r.1, r.2)
          else none
      else if isLowSurrogate n then none
      else (readString ('\\' :: 'u' :: e :: f :: g :: h :: cs)).map fun r =>
        (Char.ofNat n :: r.1, r.2)
  | '\\' :: 'u' :: a :: b :: c :: d :: cs =>
    match hex4? a b c d with
    | none => none
    | some n =>
      if isHighSurrogate n || isLowSurrogate n then none
      else (readString cs).map fun r => (Char.ofNat n :: r.1, r.2)
  | '\\' :: c :: cs =>
    match simpleEscape? c with
    | none => none
    | some e => (readString cs).map fun r => (e :: r.1, r.2)
  | c :: cs =>
    if c.toNat < 32 || c == '\\' then none else (readString cs).map fun r => (c :: r.1, r.2)

/-- The greatest 64-bit natural. -/
def maxNatural : Nat := Nat.pow 2 64 - 1

/-- A significand of at most 64 bits and a power of ten. -/
structure Scaled where
  significand : Nat
  exponent : Int
deriving Repr, DecidableEq

/-- Adds the digits before the point. From the first that no longer fits on, each counts as a power
of ten only. -/
def Scaled.addWhole (s : Scaled) (full : Bool) : List Nat → Scaled × Bool
  | [] => (s, full)
  | d :: ds =>
    if full || maxNatural < s.significand * 10 + d then
      addWhole { s with exponent := s.exponent + 1 } true ds
    else addWhole { s with significand := s.significand * 10 + d } false ds

/-- Adds the digits behind the point, up to the first that does not fit. -/
def Scaled.addFraction (s : Scaled) : List Nat → Scaled
  | [] => s
  | d :: ds =>
    if maxNatural < s.significand * 10 + d then s
    else addFraction ⟨s.significand * 10 + d, s.exponent - 1⟩ ds

/-- A power of ten up to the 308th. -/
def powerOfTen (n : Nat) : Binary64 :=
  (Binary64.ofQuotient? false (Nat.pow 10 n) 1).getD (Binary64.zero false)

/-- Divides by a power of ten, in steps of at most 308 places. -/
def scaleDown (x : Binary64) (n : Nat) : Binary64 :=
  if n ≤ 308 then (x.div? (powerOfTen n)).getD x
  else if x.isZero then x
  else scaleDown ((x.div? (powerOfTen 308)).getD x) (n - 308)
termination_by n

/-- Multiplies by a power of ten, none if the result is too large. -/
def scaleUp? (x : Binary64) (n : Nat) : Option Binary64 :=
  if n ≤ 308 then x.mul? (powerOfTen n)
  else if x.isZero then some x
  else none

/-- The floating point number of a significand and a power of ten. -/
def Scaled.toReal? (s : Scaled) (negative : Bool) : Option Binary64 := do
  let x ← Binary64.ofQuotient? negative s.significand 1
  if 0 ≤ s.exponent then scaleUp? x s.exponent.toNat
  else some (scaleDown x (-s.exponent).toNat)

/-- The greatest exponent that is added up; a greater one counts as out of all bounds. -/
def maxExponent : Nat := Nat.pow 2 31 - 1

/-- The natural that a list of digits writes. -/
def naturalOf (ds : List Nat) : Nat :=
  ds.foldl (fun n d => n * 10 + d) 0

/-- The number of a significand and a written exponent. -/
def withExponent (s : Scaled) (negative down : Bool) (ds : List Nat) : Option Number :=
  let e := naturalOf ds
  if maxExponent < e then
    if s.significand == 0 || down then some (.real (Binary64.zero negative)) else none
  else
    ({ s with exponent := if down then s.exponent - e else s.exponent + e }.toReal? negative).map
      .real

/-- The digits a text starts with, and what follows them. -/
def spanDigits : List Char → List Nat × List Char
  | [] => ([], [])
  | c :: cs =>
    match digit? c with
    | some d => (d :: (spanDigits cs).1, (spanDigits cs).2)
    | none => ([], c :: cs)

/-- Reads the exponent of a number, if there is one. `whole` is the number if it ends here. -/
def readExponent (s : Scaled) (negative : Bool) (whole : Option Number) (cs : List Char) :
    Option (Number × List Char) :=
  match cs with
  | c :: rest =>
    if c == 'e' || c == 'E' then
      let (down, rest) := match rest with
        | '-' :: rest => (true, rest)
        | '+' :: rest => (false, rest)
        | _ => (false, rest)
      match spanDigits rest with
      | ([], _) => none
      | (ds, rest) => (withExponent s negative down ds).map (·, rest)
    else whole.map (·, cs)
  | [] => whole.map (·, cs)

/-- The number of digits without point and exponent. -/
def wholeNumber (s : Scaled) (full negative : Bool) : Option Number :=
  if full then (s.toReal? negative).map .real
  else if !negative then some (.int s.significand)
  else if s.significand == 0 || Nat.pow 2 63 < s.significand then (s.toReal? negative).map .real
  else some (.int (-s.significand))

/-- Reads a number behind its sign. -/
def readNumber (negative : Bool) (cs : List Char) : Option (Number × List Char) :=
  match spanDigits cs with
  | ([], _) => none
  | (0 :: _ :: _, _) => none
  | (ds, rest) =>
    let (s, full) := Scaled.addWhole ⟨0, 0⟩ false ds
    match rest with
    | '.' :: rest =>
      match spanDigits rest with
      | ([], _) => none
      | (fraction, rest) =>
        let s := s.addFraction fraction
        readExponent s negative ((s.toReal? negative).map .real) rest
    | rest => readExponent s negative (wholeNumber s full negative) rest

/-- Reads the items of an array behind its bracket or a comma, at most `fuel` of them. -/
def readItems (value : List Char → Option (Json × List Char)) :
    Nat → List Char → Option (List Json × List Char)
  | 0, _ => none
  | fuel + 1, cs => do
    let (item, cs) ← value cs
    match skipSpace cs with
    | ',' :: cs =>
      let (items, cs) ← readItems value fuel cs
      return (item :: items, cs)
    | ']' :: cs => return ([item], cs)
    | _ => none

/-- Reads the fields of an object behind its brace or a comma, at most `fuel` of them. -/
def readFields (value : List Char → Option (Json × List Char)) :
    Nat → List Char → List (String × Json) → Option (List (String × Json) × List Char)
  | 0, _, _ => none
  | fuel + 1, cs, fields =>
    match skipSpace cs with
    | '"' :: cs => do
      let (key, cs) ← readString cs
      match skipSpace cs with
      | ':' :: cs =>
        let (item, cs) ← value cs
        let fields := setField (String.ofList key) item fields
        match skipSpace cs with
        | ',' :: cs => readFields value fuel cs fields
        | '}' :: cs => return (fields, cs)
        | _ => none
      | _ => none
    | _ => none

/-- Reads a value that nests at most `depth` arrays and objects. -/
def readValue (depth : Nat) (cs : List Char) : Option (Json × List Char) :=
  match depth, skipSpace cs with
  | _, 'n' :: 'u' :: 'l' :: 'l' :: cs => some (.null, cs)
  | _, 't' :: 'r' :: 'u' :: 'e' :: cs => some (.bool true, cs)
  | _, 'f' :: 'a' :: 'l' :: 's' :: 'e' :: cs => some (.bool false, cs)
  | _, '"' :: cs => (readString cs).map fun r => (.string (String.ofList r.1), r.2)
  | _, '-' :: cs => (readNumber true cs).map fun r => (.number r.1, r.2)
  | depth + 1, '[' :: cs =>
    match skipSpace cs with
    | ']' :: cs => some (.array [], cs)
    | _ => (readItems (readValue depth) cs.length cs).map fun r => (.array r.1, r.2)
  | depth + 1, '{' :: cs =>
    match skipSpace cs with
    | '}' :: cs => some (.object [], cs)
    | _ => (readFields (readValue depth) cs.length cs []).map fun r => (.object r.1, r.2)
  | _, cs => (readNumber false cs).map fun r => (.number r.1, r.2)

/-- How many arrays and objects may stand inside each other. -/
def maxDepth : Nat := 127

/-- The value a text holds, blanks around it aside. -/
def parse? (text : String) : Option Json := do
  let (value, rest) ← readValue maxDepth text.toList
  if skipSpace rest == [] then some value else none

end Bindery.Json
