import Bindery.Proofs.FileTree.Naming

/-!
# What a directory lists

A directory lists the names that stand one step behind it. The path of the directory with a listed
name behind it leads to what the name names, unless that path cannot be followed.
-/

namespace Bindery.FileTree
set_option autoImplicit false

open Bindery.Path (IsName)

variable {tree : FileTree} {docs : Path} {place : Place} {name : String} {entry : FileEntry}

/-! ## The names -/

/-- The entry of a directory that an entry of the tree is. -/
theorem child_eq_some {e : Place × FileEntry} {child : String × FileEntry} :
    (match e.1.getLast? with
      | some name => if e.1.dropLast = place ∧ IsName name then some (name, e.2) else none
      | none => none) = some child ↔ e = (place ++ [child.1], child.2) ∧ IsName child.1 := by
  obtain ⟨p, entry⟩ := e
  obtain ⟨name, entry'⟩ := child
  constructor
  · intro taken
    split at taken
    · next last found =>
      obtain ⟨lead, rfl⟩ := List.getLast?_eq_some_iff.1 found
      rw [List.dropLast_concat] at taken
      split at taken
      · next same =>
        cases taken
        exact ⟨by rw [same.1], same.2⟩
      · cases taken
    · cases taken
  · rintro ⟨same, isName⟩
    cases same
    simpa using isName

/-- The entries of a directory are those of the tree at the places one step behind it. -/
theorem mem_children_iff :
    (name, entry) ∈ tree.children place ↔ (place ++ [name], entry) ∈ tree.entries ∧ IsName name := by
  unfold children
  rw [List.mem_filterMap]
  constructor
  · rintro ⟨e, mem, taken⟩
    obtain ⟨rfl, isName⟩ := child_eq_some.1 taken
    exact ⟨mem, isName⟩
  · rintro ⟨mem, isName⟩
    exact ⟨_, mem, child_eq_some.2 ⟨rfl, isName⟩⟩

/-- The entries of a directory come as they do in the tree. -/
theorem places_children (tree : FileTree) (place : Place) :
    ((tree.children place).map fun e => place ++ [e.1]).Sublist (tree.entries.map (·.1)) := by
  unfold children
  induction tree.entries with
  | nil => exact .slnil
  | cons e rest ih =>
    rw [List.filterMap_cons]
    split
    · exact ih.cons _
    · next child taken =>
      rw [List.map_cons, List.map_cons, (child_eq_some.1 taken).1]
      exact ih.cons_cons _

theorem nodup_children (distinct : tree.HasDistinctPlaces) :
    ((tree.children place).map (·.1)).Nodup := by
  have places := (places_children tree place).nodup distinct.nodup
  rw [show (fun e : String × FileEntry => place ++ [e.1]) = (fun name => place ++ [name]) ∘ (·.1)
    from rfl, ← List.map_map] at places
  exact places.of_map _

/-- If a directory lists each name once, it lists what is there. -/
theorem mem_children (once : ((tree.children place).map (·.1)).Nodup) :
    (name, entry) ∈ tree.children place ↔
      tree.lookup (place ++ [name]) = some entry ∧ IsName name := by
  have inner : place ++ [name] ≠ [] := by simp
  constructor
  · intro mem
    obtain ⟨there, isName⟩ := mem_children_iff.1 mem
    refine ⟨?_, isName⟩
    cases found : tree.lookup (place ++ [name]) with
    | none =>
      rw [lookup, if_neg inner] at found
      have absent := List.lookup_eq_none_iff.1 found _ there
      simp at absent
    | some other =>
      -- What is looked up is listed as well, under the one name.
      have listed := mem_children_iff.2 ⟨mem_entries_of_lookup inner found, isName⟩
      rw [← lookup_of_mem once mem, lookup_of_mem once listed]
  · rintro ⟨found, isName⟩
    exact mem_children_iff.2 ⟨mem_entries_of_lookup inner found, isName⟩

/-! ## The paths of the names -/

/-- The path of a directory with a name behind it can be followed: neither of the two is too long,
and the path holds no NUL. -/
structure CanFollow (docs : Path) (name : String) : Prop where
  path : pathFault? (docs.join ⟨name⟩) = none
  short : Text.byteLength name.toList ≤ maxNameSize

theorem isFile_iff {path : Path} :
    tree.isFile path = true ↔ ∃ content, tree.entryAt path = .ok (.file content) := by
  unfold isFile
  split
  · next content found => simp [found]
  · next none => simpa using none

/-- A name behind the path of a directory leads to a file exactly if a file is there and the path can
be followed. -/
theorem isFile_join_iff (leads : tree.locate docs = .ok place)
    (directory : tree.lookup place = some .directory) (isName : IsName name) :
    tree.isFile (docs.join ⟨name⟩) = true ↔
      CanFollow docs name ∧ ∃ content, tree.lookup (place ++ [name]) = some (.file content) := by
  simp only [isFile_iff, entryAt_eq_ok, locate_join leads directory isName]
  constructor
  · rintro ⟨content, reached, taken, found⟩
    split at taken
    · cases taken
    · next path =>
      split at taken
      · cases taken
      · next short =>
        cases taken
        exact ⟨⟨path, Nat.not_lt.1 short⟩, content, found⟩
  · rintro ⟨⟨path, short⟩, content, found⟩
    refine ⟨content, _, ?_, found⟩
    rw [path]
    exact if_neg (Nat.not_lt.2 short)

theorem readDirectory_eq_ok {listed : List (String × FileEntry)} :
    tree.readDirectory docs = .ok listed ↔ ∃ place, tree.locate docs = .ok place ∧
      tree.lookup place = some .directory ∧ tree.children place = listed := by
  unfold readDirectory
  rw [bind_eq_ok]
  refine exists_congr fun place => and_congr_right fun _ => ?_
  cases tree.lookup place with
  | none => simp
  | some found => cases found <;> simp

theorem isName_of_listed {listed : List (String × FileEntry)}
    (read : tree.readDirectory docs = .ok listed) (mem : name ∈ listed.map (·.1)) :
    IsName name := by
  obtain ⟨place, -, -, rfl⟩ := readDirectory_eq_ok.1 read
  obtain ⟨⟨name, entry⟩, child, rfl⟩ := List.mem_map.1 mem
  exact (mem_children_iff.1 child).2

/-- What a directory that can be read lists as a file is a file by its path, if that can be
followed. -/
theorem isFile_iff_of_listed {listed : List (String × FileEntry)}
    (read : tree.readDirectory docs = .ok listed) (once : (listed.map (·.1)).Nodup) :
    name ∈ listed.map (·.1) ∧ tree.isFile (docs.join ⟨name⟩) = true ↔
      (∃ content, (name, .file content) ∈ listed) ∧ CanFollow docs name := by
  obtain ⟨place, leads, directory, rfl⟩ := readDirectory_eq_ok.1 read
  constructor
  · rintro ⟨mem, file⟩
    obtain ⟨⟨name, entry⟩, listed, rfl⟩ := List.mem_map.1 mem
    obtain ⟨-, isName⟩ := mem_children_iff.1 listed
    obtain ⟨followed, content, found⟩ := (isFile_join_iff leads directory isName).1 file
    exact ⟨⟨content, (mem_children once).2 ⟨found, isName⟩⟩, followed⟩
  · rintro ⟨⟨content, mem⟩, followed⟩
    obtain ⟨found, isName⟩ := (mem_children once).1 mem
    exact ⟨List.mem_map_of_mem mem,
      (isFile_join_iff leads directory isName).2 ⟨followed, content, found⟩⟩

/-! ## Paths that are too long -/

theorem pathFault?_eq_none_iff {path : Path} :
    pathFault? path = none ↔ Char.ofNat 0 ∉ path.text.toList ∧ path.text ≠ "" ∧
      Text.byteLength path.text.toList ≤ maxPathSize := by
  unfold pathFault?
  by_cases nul : Char.ofNat 0 ∈ path.text.toList
  · simp [nul]
  · by_cases empty : path.text = ""
    · simp [empty]
    · simp [nul, empty]

/-- Nothing can be followed that is, without the slash, longer than paths are. -/
theorem not_canFollow_of_long (isName : IsName name)
    (long : maxPathSize < Text.byteLength docs.text.toList + Text.byteLength name.toList) :
    ¬CanFollow docs name := by
  intro followed
  obtain ⟨-, -, short⟩ := pathFault?_eq_none_iff.1 followed.path
  refine absurd short (Nat.not_le.2 (Nat.lt_of_lt_of_le long ?_))
  unfold Path.join
  rw [isName.not_isAbsolute, Bool.false_or]
  split
  · next empty => simp [of_decide_eq_true empty]
  · split
    · simp
    · simp

/-- A slash and a dot behind the path of a directory lead nowhere else. -/
theorem locate_dot (leads : tree.locate docs = .ok place)
    (directory : tree.lookup place = some .directory)
    (short : Text.byteLength docs.text.toList + 2 ≤ maxPathSize) :
    tree.locate ⟨docs.text ++ "/."⟩ = .ok place := by
  unfold locate at leads ⊢
  split at leads
  · cases leads
  · next none =>
    obtain ⟨noNul, named, -⟩ := pathFault?_eq_none_iff.1 none
    have text : (⟨docs.text ++ "/."⟩ : Path).text.toList = docs.text.toList ++ '/' :: ['.'] := by
      simp
    have absolute : (⟨docs.text ++ "/."⟩ : Path).isAbsolute = docs.isAbsolute := by
      unfold Path.isAbsolute
      rw [text, List.head?_append_of_ne_nil _ (by simpa using named)]
    have parts : (⟨docs.text ++ "/."⟩ : Path).parts = docs.parts ++ [['.']] := by
      rw [Path.parts_of_slash text, absolute, Path.parts_eq docs]
      rfl
    have fine : pathFault? ⟨docs.text ++ "/."⟩ = .none := by
      refine pathFault?_eq_none_iff.2 ⟨?_, by simp [named], ?_⟩
      · rw [text, List.mem_append, not_or]
        exact ⟨noNul, by decide⟩
      · rw [text, Text.byteLength_append]
        exact short
    have start : tree.startOf ⟨docs.text ++ "/."⟩ = tree.startOf docs := by
      unfold startOf
      rw [absolute]
    have stay : tree.step place ['.'] = .ok place := by simp [step, directory, Path.isReal]
    rw [fine, parts, start]
    simp only [List.foldlM_append, leads, List.foldlM_cons, List.foldlM_nil, bind_pure]
    exact stay

/-- A path with dots behind it. -/
def dotted (docs : Path) : Nat → Path
  | 0 => docs
  | n + 1 => ⟨(dotted docs n).text ++ "/."⟩

theorem byteLength_dotted (docs : Path) (n : Nat) :
    Text.byteLength (dotted docs n).text.toList = Text.byteLength docs.text.toList + 2 * n := by
  induction n with
  | zero => rfl
  | succ n ih =>
    rw [dotted, String.toList_append, Text.byteLength_append, ih]
    exact Nat.add_assoc _ _ _

theorem locate_dotted (leads : tree.locate docs = .ok place)
    (directory : tree.lookup place = some .directory) {n : Nat}
    (short : Text.byteLength docs.text.toList + 2 * n ≤ maxPathSize) :
    tree.locate (dotted docs n) = .ok place := by
  induction n with
  | zero => exact leads
  | succ n ih =>
    refine locate_dot (ih (by omega)) directory ?_
    rw [byteLength_dotted]
    omega

end Bindery.FileTree
