import Bindery.Path
import Bindery.Text.Bytes

/-!
# A tree of files

Files and directories as a value. A place in the tree is the list of names that lead to it from the
root, and the root is always a directory. Paths are followed name by name: every name but the last
must be that of a directory that is there. Names and paths have a greatest length, and no path holds
the character NUL.
-/

namespace Bindery
set_option autoImplicit false

/-- What a file holds. -/
inductive FileContent where
  | text (text : String)
  /-- Bytes that are no text. -/
  | binary
deriving Repr, DecidableEq, Inhabited

/-- What is at a place. -/
inductive FileEntry where
  | directory
  | file (content : FileContent)
deriving Repr, DecidableEq, Inhabited

/-- The names from the root to a place. -/
abbrev Place := List String

/-- Why a path cannot be read. -/
inductive AccessFault where
  | notFound
  | notADirectory
  | isADirectory
  /-- The file is no text. -/
  | notText
  /-- A name or the path as a whole is too long. -/
  | tooLong
  /-- The path holds a NUL. -/
  | nulInPath
deriving Repr, DecidableEq, Inhabited

/-- What is where, and the directory at which relative paths start. -/
structure FileTree where
  working : Place
  entries : List (Place × FileEntry)
deriving Repr, Inhabited

namespace FileTree

/-- What is at a place. -/
def lookup (tree : FileTree) (place : Place) : Option FileEntry :=
  if place = [] then some .directory else tree.entries.lookup place

/-- Entries with one place set. -/
def setEntry (place : Place) (entry : FileEntry) :
    List (Place × FileEntry) → List (Place × FileEntry)
  | [] => [(place, entry)]
  | (p, e) :: rest => if p = place then (p, entry) :: rest else (p, e) :: setEntry place entry rest

/-- Puts an entry at a place. -/
def insert (tree : FileTree) (place : Place) (entry : FileEntry) : FileTree :=
  { tree with entries := setEntry place entry tree.entries }

/-- Removes what is at a place and everything inside it. -/
def erase (tree : FileTree) (place : Place) : FileTree :=
  { tree with entries := tree.entries.filter fun e => !place.isPrefixOf e.1 }

theorem lookup_setEntry (place other : Place) (entry : FileEntry)
    (entries : List (Place × FileEntry)) :
    (setEntry place entry entries).lookup other =
      if other = place then some entry else entries.lookup other := by
  induction entries with
  | nil =>
    by_cases h : other = place
    · simp [setEntry, h]
    · simp [setEntry, List.lookup_cons, h, beq_eq_false_iff_ne.mpr h]
  | cons e rest ih =>
    obtain ⟨p, old⟩ := e
    by_cases hp : p = place
    · subst hp
      by_cases h : other = p
      · simp [setEntry, h]
      · simp [setEntry, List.lookup_cons, h, beq_eq_false_iff_ne.mpr h]
    · by_cases h : other = p
      · subst h
        simp [setEntry, hp]
      · simp [setEntry, List.lookup_cons, hp, beq_eq_false_iff_ne.mpr h, ih]

/-- Putting an entry somewhere changes what is there and nothing else. -/
theorem lookup_insert (tree : FileTree) {place : Place} (h : place ≠ []) (entry : FileEntry)
    (other : Place) :
    (tree.insert place entry).lookup other =
      if other = place then some entry else tree.lookup other := by
  by_cases ho : other = []
  · simp [lookup, ho, h.symm]
  · simp [lookup, insert, ho, lookup_setEntry]

/-- How long a name may be, in bytes. -/
def maxNameSize : Nat := 255

/-- How long a path may be, in bytes. -/
def maxPathSize : Nat := 4095

/-- Why a path leads nowhere, whatever the tree holds. -/
def pathFault? (path : Path) : Option AccessFault :=
  if path.text.toList.contains (Char.ofNat 0) then some .nulInPath
  else if path.text = "" then some .notFound
  else if Text.byteLength path.text.toList > maxPathSize then some .tooLong
  else none

/-- The names in a directory with what they name. Only what can be a name is one. -/
def children (tree : FileTree) (place : Place) : List (String × FileEntry) :=
  tree.entries.filterMap fun e =>
    match e.1.getLast? with
    | some name => if e.1.dropLast = place ∧ Path.IsName name then some (name, e.2) else none
    | none => none

/-- One step from a place, which must be a directory. -/
def step (tree : FileTree) (place : Place) (part : List Char) : Except AccessFault Place :=
  match tree.lookup place with
  | none => .error .notFound
  | some (.file _) => .error .notADirectory
  | some .directory =>
    if !Path.isReal part then .ok place
    else if part = ['.', '.'] then .ok place.dropLast
    else if Text.byteLength part > maxNameSize then .error .tooLong
    else .ok (place ++ [String.ofList part])

/-- Where a path starts. -/
def startOf (tree : FileTree) (path : Path) : Place :=
  if path.isAbsolute then [] else tree.working

/-- The place a path leads to. Nothing need be there. -/
def locate (tree : FileTree) (path : Path) : Except AccessFault Place :=
  match pathFault? path with
  | some fault => .error fault
  | none => path.parts.foldlM tree.step (tree.startOf path)

/-- What a path leads to. -/
def entryAt (tree : FileTree) (path : Path) : Except AccessFault FileEntry := do
  match tree.lookup (← tree.locate path) with
  | some entry => .ok entry
  | none => .error .notFound

/-- Whether a path leads to something. -/
def pathExists (tree : FileTree) (path : Path) : Bool :=
  match tree.entryAt path with
  | .ok _ => true
  | .error _ => false

/-- Whether a path leads to a file. -/
def isFile (tree : FileTree) (path : Path) : Bool :=
  match tree.entryAt path with
  | .ok (.file _) => true
  | _ => false

/-- The text of a file. -/
def readText (tree : FileTree) (path : Path) : Except AccessFault String := do
  match ← tree.entryAt path with
  | .file (.text text) => .ok text
  | .file .binary => .error .notText
  | .directory => .error .isADirectory

/-- The names in a directory with what they name, in no particular order. -/
def readDirectory (tree : FileTree) (path : Path) :
    Except AccessFault (List (String × FileEntry)) := do
  let place ← tree.locate path
  match tree.lookup place with
  | some .directory => .ok (tree.children place)
  | some (.file _) => .error .notADirectory
  | none => .error .notFound

/-- One step from a place, making a directory of its name if nothing is there. -/
def enter (tree : FileTree) (place : Place) (part : List Char) :
    Except AccessFault (FileTree × Place) := do
  let next ← tree.step place part
  match tree.lookup next with
  | some .directory => .ok (tree, next)
  | some (.file _) => .error .notADirectory
  | none => .ok (tree.insert next .directory, next)

/-- Makes the directories that parts lead through, as far as that is possible. -/
def enterAll (tree : FileTree) (place : Place) : List (List Char) → FileTree × Bool
  | [] => (tree, true)
  | part :: parts =>
    match tree.enter place part with
    | .ok (tree, next) => enterAll tree next parts
    | .error _ => (tree, false)

/-- Makes a directory with all directories that lead to it: the tree then, and whether it worked. -/
def makeDirectory (tree : FileTree) (path : Path) : FileTree × Bool :=
  if path.text = "" then (tree, true)
  else match pathFault? path with
    | some _ => (tree, false)
    | none => tree.enterAll (tree.startOf path) path.parts

/-- Writes a file into a directory that is there; none if that is not possible. -/
def writeFile? (tree : FileTree) (path : Path) (content : FileContent) : Option FileTree :=
  match tree.locate path with
  | .ok place =>
    match tree.lookup place with
    | some .directory => none
    | _ => some (tree.insert place (.file content))
  | .error _ => none

/-- Makes the directory of a path and writes a file there: the tree then, and whether it worked. -/
def write (tree : FileTree) (path : Path) (content : FileContent) : FileTree × Bool :=
  let (tree, made) :=
    match path.parent? with
    | some dir => tree.makeDirectory dir
    | none => (tree, true)
  if made then
    match tree.writeFile? path content with
    | some tree => (tree, true)
    | none => (tree, false)
  else (tree, false)

/-- Everything below a path with the names that lead there from the working directory, sorted. A
directory's name ends in a slash. -/
def listing (tree : FileTree) (path : Path) : List (String × FileEntry) :=
  match tree.locate path with
  | .ok place =>
    let below := tree.entries.filter fun e => place.isPrefixOf e.1 && e.1 != place
    let named := below.map fun e =>
      let name := "/".intercalate (e.1.drop tree.working.length)
      (if e.2 = .directory then name ++ "/" else name, e.2)
    named.mergeSort fun a b => decide (a.1 ≤ b.1)
  | .error _ => []

end FileTree

end Bindery
