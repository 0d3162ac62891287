/-!
# Numbers, truth values and dates

The values of a settings file that are neither strings nor arrays nor tables. No setting takes one,
so they are checked and not kept: a number must be written as one, and a date must exist.
-/

namespace Bindery.Toml
set_option autoImplicit false

/-- Whether a character ends a value without quotes. -/
def isDelimiter (c : Char) : Bool :=
  ['=', ',', '[', ']', '{', '}', '#', ' ', '\t', '\r', '\n'].contains c

/-- A blank or a tab. -/
def isGap (c : Char) : Bool :=
  c == ' ' || c == '\t'

/-- The text behind its leading blanks. -/
def skipGaps (cs : List Char) : List Char :=
  cs.dropWhile isGap

/-- The single quote. -/
def singleQuote : Char := Char.ofNat 39

/-- Whether a text goes on without quotes behind its leading blanks. -/
def goesOn (cs : List Char) : Bool :=
  match skipGaps cs with
  | [] => false
  | c :: _ => !(isDelimiter c || c == '"' || c == singleQuote)

/-- The value without quotes at the start of a text. Blanks belong to it if it goes on behind
them. -/
def takeUnquoted : List Char → List Char
  | [] => []
  | c :: cs =>
    if !isDelimiter c || (isGap c && goesOn cs) then c :: takeUnquoted cs else []

/-- Digits with single underscores between them. -/
def isDigits (isDigit : Char → Bool) : List Char → Bool
  | [] => false
  | [c] => isDigit c
  | c :: '_' :: cs => isDigit c && isDigits isDigit cs
  | c :: cs => isDigit c && isDigits isDigit cs

/-- A digit of base 16. -/
def isHexDigit (c : Char) : Bool :=
  c.isDigit || ('a' ≤ c && c ≤ 'f') || ('A' ≤ c && c ≤ 'F')

/-- The text behind the sign it may start with. -/
def unsigned : List Char → List Char
  | '+' :: cs => cs
  | '-' :: cs => cs
  | cs => cs

/-- A whole number of another base than ten. Behind the mark of the base its digits may be
missing. -/
def isBased : List Char → Bool
  | '0' :: 'x' :: cs => cs.isEmpty || isDigits isHexDigit cs
  | '0' :: 'o' :: cs => cs.isEmpty || isDigits (fun c => '0' ≤ c && c ≤ '7') cs
  | '0' :: 'b' :: cs => cs.isEmpty || isDigits (fun c => c == '0' || c == '1') cs
  | _ => false

/-- Digits of a number without a sign, with no zero in front of others. -/
def isWhole (cs : List Char) : Bool :=
  cs == ['0'] || (isDigits Char.isDigit cs && cs.head? != some '0')

/-- Whether every underscore stands between two digits of base 16. -/
def hasInnerUnderscores : List Char → Bool
  | [] => true
  | '_' :: _ => false
  | [_, '_'] => false
  | c :: '_' :: d :: cs => isHexDigit c && isHexDigit d && hasInnerUnderscores (d :: cs)
  | _ :: cs => hasInnerUnderscores cs

/-- Digits of a number without a sign and what may follow their first underscore: anything that
neither holds a blank nor looks like a fraction or an exponent, if its underscores are well
placed. -/
def isGrouped (cs : List Char) : Bool :=
  let tail := cs.dropWhile Char.isDigit
  isWhole (cs.takeWhile Char.isDigit) && cs.head? != some '0' && tail.head? == some '_' &&
    hasInnerUnderscores cs && !tail.any ['.', 'e', 'E', ' '].contains

/-- A digit or an underscore. -/
def isInDigits (c : Char) : Bool :=
  c.isDigit || c == '_'

/-- The exponent of a number, or nothing. -/
def isExponent : List Char → Bool
  | [] => true
  | c :: cs => (c == 'e' || c == 'E') && isDigits Char.isDigit (unsigned cs)

/-- What may follow the whole part of a number. -/
def isFraction : List Char → Bool
  | '.' :: cs =>
    isDigits Char.isDigit (cs.takeWhile isInDigits) && isExponent (cs.dropWhile isInDigits)
  | cs => isExponent cs

/-- A number of any size. -/
def isNumber (cs : List Char) : Bool :=
  let magnitude := unsigned cs
  isBased cs || magnitude == ['i', 'n', 'f'] || magnitude == ['n', 'a', 'n'] ||
    isGrouped magnitude ||
    (isWhole (magnitude.takeWhile isInDigits) && isFraction (magnitude.dropWhile isInDigits))

/-- Reads a number of exactly `n` digits. -/
def readFixed? (n : Nat) (cs : List Char) : Option (Nat × List Char) :=
  let digits := cs.take n
  if digits.length = n && digits.all Char.isDigit then
    some (digits.foldl (fun value c => value * 10 + (c.toNat - 48)) 0, cs.drop n)
  else none

/-- The text behind a character, if it starts with that one. -/
def after? (c : Char) : List Char → Option (List Char)
  | d :: cs => if d = c then some cs else none
  | [] => none

/-- Whether a year has a 29th of February. -/
def isLeapYear (year : Nat) : Bool :=
  year % 4 == 0 && (year % 100 != 0 || year % 400 == 0)

/-- The last day of a month. -/
def lastDay (year month : Nat) : Nat :=
  if month = 2 then if isLeapYear year then 29 else 28
  else if [4, 6, 9, 11].contains month then 30
  else 31

/-- The text behind a date such as `1979-05-27`, if it starts with one. -/
def afterDate? (cs : List Char) : Option (List Char) := do
  let (year, cs) ← readFixed? 4 cs
  let (month, cs) ← readFixed? 2 (← after? '-' cs)
  let (day, cs) ← readFixed? 2 (← after? '-' cs)
  if 1 ≤ month && month ≤ 12 && 1 ≤ day && day ≤ lastDay year month then some cs else none

/-- The text behind hours and minutes, if it starts with them. -/
def afterMinutes? (cs : List Char) : Option (List Char) := do
  let (hour, cs) ← readFixed? 2 cs
  let (minute, cs) ← readFixed? 2 (← after? ':' cs)
  if hour ≤ 23 && minute ≤ 59 then some cs else none

/-- The text behind the decimal places of a second, which may be missing. -/
def afterPlaces? : List Char → Option (List Char)
  | '.' :: cs =>
    if (cs.takeWhile Char.isDigit).isEmpty then none else some (cs.dropWhile Char.isDigit)
  | cs => some cs

/-- The text behind seconds, which may be missing. A minute may have a leap second. -/
def afterSeconds? : List Char → Option (List Char)
  | ':' :: cs => do
    let (second, cs) ← readFixed? 2 cs
    if second ≤ 60 then afterPlaces? cs else none
  | cs => some cs

/-- The text behind a time of day such as `07:32:00.5`, if it starts with one. -/
def afterTime? (cs : List Char) : Option (List Char) := do
  afterSeconds? (← afterMinutes? cs)

/-- How far a clock is from universal time, or nothing. -/
def isOffset : List Char → Bool
  | [] => true
  | c :: cs =>
    if c == 'Z' || c == 'z' then cs.isEmpty
    else (c == '+' || c == '-') && afterMinutes? cs == some []

/-- A time of day behind a date, or nothing. -/
def isTimeOfDate : List Char → Bool
  | [] => true
  | c :: cs => (c == 'T' || c == 't' || c == ' ') && (afterTime? cs).any isOffset

/-- A date, a time of day or both. -/
def isMoment (cs : List Char) : Bool :=
  match afterDate? cs with
  | some rest => isTimeOfDate rest
  | none => afterTime? cs == some []

/-- A number, a truth value or a date. -/
def isScalar (cs : List Char) : Bool :=
  isNumber cs || isMoment cs || cs == ['t', 'r', 'u', 'e'] || cs == ['f', 'a', 'l', 's', 'e']

/-- The text behind a number, a truth value or a date, if it starts with one. -/
def afterScalar? (cs : List Char) : Option (List Char) :=
  let value := takeUnquoted cs
  if isScalar value then some (cs.drop value.length) else none

end Bindery.Toml
