/-!
# Paths

A path is kept as it was written, because it is shown as it was written. Its parts are separated by
slashes; empty parts and parts that are a single dot do not count, except for a dot at the very
start. Two paths are the same if their components are.
-/

namespace Bindery
set_option autoImplicit false

/-- A path as written. -/
structure Path where
  text : String
deriving Repr, DecidableEq, Inhabited

namespace Path

/-- A part of a path. -/
inductive Component where
  | root
  /-- The dot a relative path may start with. -/
  | current
  | parent
  | name (name : String)
deriving Repr, DecidableEq

/-- The parts between slashes. -/
def splitSlashes : List Char → List (List Char)
  | [] => [[]]
  | c :: cs =>
    if c = '/' then [] :: splitSlashes cs
    else match splitSlashes cs with
      | [] => [[c]]
      | part :: parts => (c :: part) :: parts

/-- Whether a part behind the start of a path counts. -/
def isReal (part : List Char) : Bool :=
  part != [] && part != ['.']

/-- What an entry of a directory may be called. -/
structure IsName (name : String) : Prop where
  notEmpty : name ≠ ""
  noSlash : '/' ∉ name.toList
  notHere : name ≠ "."
  notAbove : name ≠ ".."

instance : DecidablePred IsName := fun name =>
  decidable_of_iff (name ≠ "" ∧ '/' ∉ name.toList ∧ name ≠ "." ∧ name ≠ "..")
    ⟨fun ⟨a, b, c, d⟩ => ⟨a, b, c, d⟩, fun ⟨a, b, c, d⟩ => ⟨a, b, c, d⟩⟩

/-- Whether a path starts at the root. -/
def isAbsolute (p : Path) : Bool :=
  p.text.toList.head? == some '/'

/-- The parts between slashes, those of an absolute path behind its first slash. -/
def parts (p : Path) : List (List Char) :=
  match p.text.toList with
  | '/' :: cs => splitSlashes cs
  | cs => splitSlashes cs

/-- Whether a relative path starts with a dot. -/
def startsWithDot (p : Path) : Bool :=
  !p.isAbsolute && p.parts.head? == some ['.']

/-- The component of a part that counts. -/
def Component.ofPart (part : List Char) : Component :=
  if part = ['.', '.'] then .parent else .name (String.ofList part)

/-- The components of a path. -/
def components (p : Path) : List Component :=
  (if p.isAbsolute then [.root] else if p.startsWithDot then [.current] else []) ++
    (p.parts.filter isReal).map Component.ofPart

/-- Whether two paths are the same. -/
def same (p q : Path) : Bool :=
  p.components == q.components

/-- A path inside another. An absolute path stands for itself. -/
def join (base inner : Path) : Path :=
  if inner.isAbsolute || base.text = "" then inner
  else if base.text.toList.getLast? == some '/' then ⟨base.text ++ inner.text⟩
  else ⟨base.text ++ "/" ++ inner.text⟩

/-- Parts with slashes between them. -/
def joinParts (parts : List (List Char)) : List Char :=
  List.intercalate ['/'] parts

/-- Parts up to the last that counts. -/
def dropUnreal (parts : List (List Char)) : List (List Char) :=
  (parts.reverse.dropWhile (!isReal ·)).reverse

/-- A path without its last component, none if it is empty or the root. -/
def parent? (p : Path) : Option Path :=
  let lead : List Char := if p.isAbsolute then ['/'] else []
  let fixed := if p.startsWithDot then p.parts.take 1 else []
  let body := dropUnreal (if p.startsWithDot then p.parts.drop 1 else p.parts)
  if body = [] then
    if p.startsWithDot then some ⟨""⟩ else none
  else some ⟨String.ofList (lead ++ joinParts (fixed ++ dropUnreal body.dropLast))⟩

/-- Parts behind the first `n` that count. -/
def dropReal : Nat → List (List Char) → List (List Char)
  | 0, parts => parts.dropWhile (!isReal ·)
  | _ + 1, [] => []
  | n + 1, part :: parts => if isReal part then dropReal n parts else dropReal (n + 1) parts

/-- What leads from one path to another inside it, none if the other is not inside it. -/
def relativeTo? (p base : Path) : Option Path :=
  if base.components.isPrefixOf p.components then
    if base.components.isEmpty then
      let lead : List Char := if p.isAbsolute then ['/'] else []
      let fixed := if p.startsWithDot then p.parts.take 1 else []
      let body := if p.startsWithDot then p.parts.drop 1 else p.parts
      some ⟨String.ofList (lead ++ joinParts (fixed ++ dropUnreal body))⟩
    else
      let real := base.components.length - (if p.isAbsolute || p.startsWithDot then 1 else 0)
      let body := if p.startsWithDot then p.parts.drop 1 else p.parts
      some ⟨String.ofList (joinParts (dropReal real (dropUnreal body)))⟩
  else none

end Path

end Bindery
