import Bindery.Manual.Corpus
import Bindery.Proofs.FileTree.Children
import Bindery.Proofs.FileTree.Within
import Bindery.Proofs.Text.Search
import Mathlib.Data.List.Perm.Lattice

/-!
# The pages in a tree

The pages of a directory depend on which files it holds under the names of pages, and on nothing
else in the tree. What is read of a page depends on the page and its schema.
-/

namespace Bindery
set_option autoImplicit false

namespace Manual

open FileTree (CanFollow)
open Bindery.Path (IsName)
open Project (InputSettings SourceError)

variable {tree other : FileTree} {place : Place} {docs : Path} {suffix name : String}
  {names : List String}

/-! ## The names of pages -/

theorem mem_pageNames_iff :
    name ∈ pageNames tree docs suffix names ↔
      name ∈ names ∧ isPageName suffix name = true ∧ tree.isFile (docs.join ⟨name⟩) = true := by
  unfold pageNames isPageIn
  rw [List.mem_mergeSort, List.mem_filter, Bool.and_eq_true]

theorem nodup_pageNames (once : names.Nodup) : (pageNames tree docs suffix names).Nodup := by
  unfold pageNames
  rw [(List.mergeSort_perm _ _).nodup_iff]
  exact List.filter_sublist.nodup once

theorem sorted_pageNames (tree : FileTree) (docs : Path) (suffix : String) (names : List String) :
    (pageNames tree docs suffix names).Pairwise (· ≤ ·) := by
  have trans (a b c : String) (ab : decide (a ≤ b) = true) (bc : decide (b ≤ c) = true) :
      decide (a ≤ c) = true :=
    decide_eq_true (String.le_trans (of_decide_eq_true ab) (of_decide_eq_true bc))
  have total (a b : String) : (decide (a ≤ b) || decide (b ≤ a)) = true := by
    simpa using String.le_total a b
  unfold pageNames
  simpa only [decide_eq_true_iff] using List.pairwise_mergeSort trans total _

/-- Names in order are those of the pages if they are the same names. -/
theorem pageNames_eq_of_mem_iff {sorted : List String} (once : names.Nodup)
    (once' : sorted.Nodup) (order : sorted.Pairwise (· ≤ ·))
    (same : ∀ name, name ∈ pageNames tree docs suffix names ↔ name ∈ sorted) :
    pageNames tree docs suffix names = sorted :=
  List.Perm.eq_of_pairwise (fun _ _ _ _ => String.le_antisymm)
    (sorted_pageNames tree docs suffix names) order
    ((List.perm_ext_iff_of_nodup (nodup_pageNames once) once').2 same)

section Directory

variable (distinct : tree.HasDistinctPlaces) (leads : tree.locate docs = .ok place)
  (directory : tree.lookup place = some .directory)

include distinct leads directory

/-- The names of pages are those of the files in the directory that are called so, if their paths can
be followed. -/
theorem mem_pageNames :
    name ∈ pageNames tree docs suffix ((tree.children place).map (·.1)) ↔
      (isPageName suffix name = true ∧ IsName name ∧ CanFollow docs name) ∧
        ∃ content, tree.lookup (place ++ [name]) = some (.file content) := by
  have once : ((tree.children place).map (·.1)).Nodup := FileTree.nodup_children distinct
  have read := FileTree.readDirectory_eq_ok.2 ⟨place, leads, directory, rfl⟩
  rw [mem_pageNames_iff, and_left_comm, FileTree.isFile_iff_of_listed read once]
  simp only [FileTree.mem_children once]
  constructor
  · rintro ⟨called, ⟨content, found, isName⟩, followed⟩
    exact ⟨⟨called, isName, followed⟩, content, found⟩
  · rintro ⟨⟨called, isName, followed⟩, content, found⟩
    exact ⟨called, ⟨content, found, isName⟩, followed⟩

/-- Directories with the same files under the names of pages have the same pages. -/
theorem pageNames_eq (distinct' : other.HasDistinctPlaces)
    (leads' : other.locate docs = .ok place) (directory' : other.lookup place = some .directory)
    (same : ∀ name, isPageName suffix name = true →
      ((∃ content, other.lookup (place ++ [name]) = some (.file content)) ↔
        ∃ content, tree.lookup (place ++ [name]) = some (.file content))) :
    pageNames other docs suffix ((other.children place).map (·.1)) =
      pageNames tree docs suffix ((tree.children place).map (·.1)) := by
  refine pageNames_eq_of_mem_iff (FileTree.nodup_children distinct')
    (nodup_pageNames (FileTree.nodup_children distinct)) (sorted_pageNames _ _ _ _) fun name => ?_
  rw [mem_pageNames distinct' leads' directory', mem_pageNames distinct leads directory]
  exact and_congr_right fun called => same name called.1

/-- Without the pages behind the first, a directory has the first. -/
theorem pageNames_without {first later : List String}
    (whole : pageNames tree docs suffix ((tree.children place).map (·.1)) = first ++ later) :
    let fewer := tree.without (later.map fun name => place ++ [name])
    fewer.Within tree ∧
      pageNames fewer docs suffix ((fewer.children place).map (·.1)) = first := by
  intro fewer
  have once : (pageNames tree docs suffix ((tree.children place).map (·.1))).Nodup :=
    nodup_pageNames (FileTree.nodup_children distinct)
  have sorted := sorted_pageNames tree docs suffix ((tree.children place).map (·.1))
  have listed (name : String) : name ∈ first ++ later ↔
      (isPageName suffix name = true ∧ IsName name ∧ CanFollow docs name) ∧
        ∃ content, tree.lookup (place ++ [name]) = some (.file content) := by
    rw [← whole]
    exact mem_pageNames distinct leads directory
  rw [whole] at once sorted
  obtain ⟨unrepeated, -, apart⟩ := List.nodup_append'.1 once
  have files : ∀ other ∈ later.map (fun name => place ++ [name]),
      tree.lookup other ≠ some .directory := by
    intro other mem
    obtain ⟨name, last, rfl⟩ := List.mem_map.1 mem
    obtain ⟨-, content, file⟩ := (listed name).1 (List.mem_append_right first last)
    simp [file]
  have within : fewer.Within tree := FileTree.within_without files
  have distinct' : fewer.HasDistinctPlaces := distinct.without _
  refine ⟨within, pageNames_eq_of_mem_iff (FileTree.nodup_children distinct') unrepeated
    (List.pairwise_append.1 sorted).1 fun name => ?_⟩
  have gone : place ++ [name] ∈ later.map (fun name => place ++ [name]) ↔ name ∈ later := by simp
  rw [mem_pageNames distinct' (within.locate_iff.2 leads) (within.directory.2 directory),
    FileTree.lookup_without tree _ (by simp)]
  split
  · next last => simpa using fun here => apart here (gone.1 last)
  · next left => rw [← listed, List.mem_append, or_iff_left (mt gone.2 left)]

end Directory

/-! ## Their stems -/

/-- The stems are those of the names, in their order. -/
theorem stems_eq {stripPrefix : String} {found stems : List (String × String)}
    {names : List String} (done : stemsOf suffix stripPrefix found names = .ok stems) :
    stems = found ++ names.map fun name => (stemOf suffix stripPrefix name, name) := by
  induction names generalizing found with
  | nil =>
    cases done
    exact (List.append_nil _).symm
  | cons name names ih =>
    unfold stemsOf at done
    simp only at done
    split at done
    · cases done
    · split at done
      · cases done
      · rw [ih done, List.append_assoc]
        rfl

/-- The first names of files have the first stems. -/
theorem stemsOf_prefix {stripPrefix : String} {found stems : List (String × String)}
    {first later : List String}
    (done : stemsOf suffix stripPrefix found (first ++ later) = .ok stems) :
    stemsOf suffix stripPrefix found first =
      .ok (found ++ first.map fun name => (stemOf suffix stripPrefix name, name)) := by
  induction first generalizing found with
  | nil => rw [List.map_nil, List.append_nil, stemsOf]
  | cons name names ih =>
    rw [List.cons_append] at done
    unfold stemsOf at done ⊢
    simp only at done ⊢
    split at done
    · cases done
    · next named =>
      rw [if_neg named]
      split at done
      · cases done
      · rw [ih done, List.append_assoc]
        rfl

/-! ## The pages -/

variable {input : InputSettings} {entries : List Entry}

/-- The pages that are found, if some are. -/
theorem enumerate_eq_ok :
    enumerate tree docs input = .ok entries ↔
      ∃ place stems, tree.locate docs = .ok place ∧ tree.lookup place = some .directory ∧
        stemsOf input.suffix input.stripPrefix [] (pageNames tree docs input.suffix
          ((tree.children place).map (·.1))) = .ok stems ∧
        stems.map (fun e => ⟨docs.join ⟨e.2⟩, e.1⟩) = entries := by
  unfold enumerate
  simp only [bind_eq_ok, mapError_eq_ok, FileTree.readDirectory_eq_ok, pure, Except.pure,
    Except.ok.injEq]
  constructor
  · rintro ⟨_, ⟨place, leads, directory, rfl⟩, stems, named, same⟩
    exact ⟨place, stems, leads, directory, named, same⟩
  · rintro ⟨place, stems, leads, directory, named, same⟩
    exact ⟨_, ⟨place, leads, directory, rfl⟩, stems, named, same⟩

theorem enumerate_of_listed {listed : List (String × FileEntry)}
    (read : tree.readDirectory docs = .ok listed) (input : InputSettings) :
    enumerate tree docs input = (stemsOf input.suffix input.stripPrefix []
      (pageNames tree docs input.suffix (listed.map (·.1)))).map
        (·.map fun e => ⟨docs.join ⟨e.2⟩, e.1⟩) := by
  unfold enumerate
  rw [read]
  rfl

/-- The names of the pages in a directory, in the order of the tree. -/
def unsortedNames (tree : FileTree) (docs : Path) (suffix : String) (place : Place) :
    List String :=
  ((tree.children place).map (·.1)).filter (isPageIn tree docs suffix)

/-- The pages of a directory whose names are sorted in the tree. -/
theorem enumerate_of_sorted (leads : tree.locate docs = .ok place)
    (directory : tree.lookup place = some .directory)
    (sorted : (unsortedNames tree docs input.suffix place).Pairwise
      fun a b => decide (a ≤ b) = true) :
    enumerate tree docs input =
      (stemsOf input.suffix input.stripPrefix []
        (unsortedNames tree docs input.suffix place)).map
          (·.map fun e => ⟨docs.join ⟨e.2⟩, e.1⟩) := by
  have names : pageNames tree docs input.suffix ((tree.children place).map (·.1)) =
      unsortedNames tree docs input.suffix place := List.mergeSort_of_pairwise sorted
  rw [enumerate_of_listed (FileTree.readDirectory_eq_ok.2 ⟨place, leads, directory, rfl⟩), names]

/-- Some tree with fewer files has just the first of the pages. -/
theorem exists_within_of_enumerate (distinct : tree.HasDistinctPlaces) {first later : List Entry}
    (found : enumerate tree docs input = .ok (first ++ later)) :
    ∃ fewer, fewer.Within tree ∧ enumerate fewer docs input = .ok first := by
  obtain ⟨place, stems, leads, directory, named, whole⟩ := enumerate_eq_ok.1 found
  rw [stems_eq named, List.nil_append, List.map_map, List.map_eq_append_iff] at whole
  obtain ⟨names, gone, listed, rfl, -⟩ := whole
  obtain ⟨within, left⟩ := pageNames_without distinct leads directory listed
  refine ⟨_, within, enumerate_eq_ok.2 ⟨place, _, within.locate_iff.2 leads,
    within.directory.2 directory, ?_, List.map_map⟩⟩
  rw [left]
  rw [listed] at named
  exact stemsOf_prefix named

/-- Where a page's path leads, seen from the directory. -/
theorem page_of_enumerate (distinct : tree.HasDistinctPlaces)
    (found : enumerate tree docs input = .ok entries) {entry : Entry} (mem : entry ∈ entries) :
    ∃ place name content, tree.locate docs = .ok place ∧ tree.lookup place = some .directory ∧
      (isPageName input.suffix name = true ∧ IsName name ∧ CanFollow docs name) ∧
      tree.lookup (place ++ [name]) = some (.file content) ∧
      entry = ⟨docs.join ⟨name⟩, stemOf input.suffix input.stripPrefix name⟩ := by
  obtain ⟨place, stems, leads, directory, named, rfl⟩ := enumerate_eq_ok.1 found
  rw [stems_eq named, List.nil_append, List.map_map] at mem
  obtain ⟨name, listed, rfl⟩ := List.mem_map.1 mem
  obtain ⟨called, content, file⟩ := (mem_pageNames distinct leads directory).1 listed
  exact ⟨place, name, content, leads, directory, called, file, rfl⟩

/-- A stem is a part of the page's name. -/
theorem mem_stemOf {stripPrefix : String} {c : Char}
    (mem : c ∈ (stemOf suffix stripPrefix name).toList) : c ∈ name.toList := by
  unfold stemOf at mem
  rw [String.toList_ofList] at mem
  exact (Text.prefix_beforeEnd? _ _).subset ((Text.suffix_afterStart? _ _).subset mem)

/-- As names hold no slash, stems hold none. -/
theorem slash_not_mem_stem (found : enumerate tree docs input = .ok entries) {entry : Entry}
    (mem : entry ∈ entries) : '/' ∉ entry.stem.toList := by
  obtain ⟨place, stems, leads, directory, named, rfl⟩ := enumerate_eq_ok.1 found
  rw [stems_eq named, List.nil_append, List.map_map] at mem
  obtain ⟨name, page, rfl⟩ := List.mem_map.1 mem
  have isName : IsName name := FileTree.isName_of_listed
    (FileTree.readDirectory_eq_ok.2 ⟨place, leads, directory, rfl⟩) (mem_pageNames_iff.1 page).1
  exact fun slash => isName.noSlash (mem_stemOf slash)

/-- What is read of a page depends on the page and on its schema, if that is a file. -/
theorem Entry.read_congr {schemas : Path} {entry : Entry}
    (page : other.entryAt entry.path = tree.entryAt entry.path)
    (schema : ∀ content, other.entryAt (schemaPath schemas input entry.stem) = .ok (.file content) ↔
      tree.entryAt (schemaPath schemas input entry.stem) = .ok (.file content)) :
    entry.read other schemas input = entry.read tree schemas input := by
  have text : other.readText entry.path = tree.readText entry.path := by
    unfold FileTree.readText
    rw [page]
  unfold Entry.read
  rw [text]
  by_cases file : tree.isFile (schemaPath schemas input entry.stem) = true
  · obtain ⟨content, found⟩ := FileTree.isFile_iff.1 file
    have found' := (schema content).2 found
    have source : other.readText (schemaPath schemas input entry.stem) =
        tree.readText (schemaPath schemas input entry.stem) := by
      unfold FileTree.readText
      rw [found, found']
    simp only [file, FileTree.isFile_iff.2 ⟨content, found'⟩, source]
  · have file' : ¬other.isFile (schemaPath schemas input entry.stem) = true := by
      intro there
      obtain ⟨content, found⟩ := FileTree.isFile_iff.1 there
      exact file (FileTree.isFile_iff.2 ⟨content, (schema content).1 found⟩)
    simp only [file, file', Bool.not_false, if_true]

/-- What is read of a page where there are fewer files is read of it. -/
theorem Entry.read_within {fewer : FileTree} (within : fewer.Within tree) {schemas : Path}
    {entry : Entry} {record : Record} (done : entry.read fewer schemas input = .ok record) :
    entry.read tree schemas input = .ok record := by
  unfold Entry.read at done ⊢
  obtain ⟨text, page, done⟩ := bind_eq_ok.1 done
  refine bind_eq_ok.2 ⟨text, mapError_eq_ok.2 (within.readText (mapError_eq_ok.1 page)), ?_⟩
  simp only at done ⊢
  split at done
  · cases done
  · next file =>
    rw [Bool.not_eq_true, Bool.not_eq_false'] at file
    obtain ⟨content, found⟩ := FileTree.isFile_iff.1 file
    rw [FileTree.isFile_iff.2 ⟨content, within.entryAt found⟩]
    obtain ⟨source, read, done⟩ := bind_eq_ok.1 done
    exact bind_eq_ok.2 ⟨source, mapError_eq_ok.2 (within.readText (mapError_eq_ok.1 read)), done⟩

end Manual

end Bindery
