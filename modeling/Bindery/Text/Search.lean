import Bindery.Text.Bytes

/-!
# Finding one text in another

Where a text first occurs in another, and what follows a prefix or precedes a suffix.
-/

namespace Bindery.Text
set_option autoImplicit false

/-- The byte position at which a text first occurs in another, the empty text at the start. -/
def find? (needle : List Char) : List Char → Option Nat
  | [] => if needle.isEmpty then some 0 else none
  | c :: cs =>
    if needle.isPrefixOf (c :: cs) then some 0 else (find? needle cs).map (· + c.utf8Size)

/-- Whether a text occurs in another. -/
def occursIn (needle cs : List Char) : Bool :=
  (find? needle cs).isSome

/-- The bytes at which a text first occurs in another. -/
def spanOf? (needle source : String) : Option Span :=
  (find? needle.toList source.toList).map fun start =>
    ⟨start, start + byteLength needle.toList⟩

/-- What follows a text that another starts with. -/
def afterStart? (start cs : List Char) : Option (List Char) :=
  if start.isPrefixOf cs then some (cs.drop start.length) else none

/-- What precedes a text that another ends with. -/
def beforeEnd? (ending cs : List Char) : Option (List Char) :=
  if ending.isSuffixOf cs then some (cs.take (cs.length - ending.length)) else none

end Bindery.Text
