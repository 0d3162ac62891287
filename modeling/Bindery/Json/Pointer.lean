import Bindery.Json.Basic

/-!
# JSON pointers

A pointer names a place inside a value by the keys and positions that lead to it. As text each step
follows a slash, with `~` and `/` inside a step written `~0` and `~1`.
-/

namespace Bindery.Json
set_option autoImplicit false

/-- The steps from a value to a place inside it. -/
abbrev Pointer := List String

namespace Pointer

/-- A character as it stands inside a step. -/
def escapeChar (c : Char) : List Char :=
  if c = '~' then ['~', '0'] else if c = '/' then ['~', '1'] else [c]

/-- A step as text. -/
def stepText (step : String) : String :=
  String.ofList ('/' :: step.toList.flatMap escapeChar)

/-- A pointer as text. -/
def text (pointer : Pointer) : String :=
  pointer.foldl (fun out step => out ++ stepText step) ""

/-- The pointer to an item or field of the place. -/
def child (pointer : Pointer) (step : String) : Pointer :=
  pointer ++ [step]

/-- The pointer to the item at a position. -/
def item (pointer : Pointer) (position : Nat) : Pointer :=
  pointer.child (toString position)

end Pointer

/-- The value one step inside another: of an object the field, of an array the item whose position
is written in decimal without leading zeros. -/
def step? (value : Json) (step : String) : Option Json :=
  match value with
  | .object fields => fields.lookup step
  | .array items => (items.zipIdx.find? (fun item => toString item.2 = step)).map (·.1)
  | _ => none

/-- The value at a place. -/
def at? (value : Json) (pointer : Pointer) : Option Json :=
  pointer.foldlM step? value

end Bindery.Json
