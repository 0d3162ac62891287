import Bindery.Proofs.Manual.Corpus
import Bindery.Proofs.Manual.Pages
import Bindery.Proofs.Text.ByteOrder

/-!
# Stems of file names

The pages of a directory are gone through in the order of their file names, up to the first name that
has an empty stem or one that an earlier name has. A stem is that of at most two names, and then one
of them is the other with the prefix in front. A file is a page only if the directory's path with
its name behind it can be followed.
-/

namespace Bindery.Manual
set_option autoImplicit false

open Project (InputSettings SourceError)
open Text (utf8 utf8_lt_iff)

variable {suffix stripPrefix name first second : String} {names : List String}
  {listed listed' : List (String × FileEntry)} {error : SourceError}

/-! ## The stem of a name -/

theorem exists_base (called : isPageName suffix name = true) :
    ∃ base : String, name = base ++ suffix := by
  obtain ⟨front, whole⟩ := List.isSuffixOf_iff_suffix.1 called
  exact ⟨String.ofList front, String.toList_inj.1 (by simp [whole])⟩

theorem stemOf_append (suffix stripPrefix base : String) :
    stemOf suffix stripPrefix (base ++ suffix) =
      String.ofList ((Text.afterStart? stripPrefix.toList base.toList).getD base.toList) := by
  have ending : Text.beforeEnd? suffix.toList (base ++ suffix).toList = some base.toList := by
    simp [Text.beforeEnd?]
  rw [stemOf, ending, Option.getD_some]

theorem stemOf_prefixed (suffix stripPrefix stem : String) :
    stemOf suffix stripPrefix (stripPrefix ++ stem ++ suffix) = stem := by
  rw [stemOf_append]
  simp [Text.afterStart?]

theorem stemOf_plain {stem : String} (plain : ¬stripPrefix.toList <+: stem.toList) :
    stemOf suffix stripPrefix (stem ++ suffix) = stem := by
  rw [stemOf_append]
  simp [Text.afterStart?, plain]

theorem isPageName_append (suffix base : String) : isPageName suffix (base ++ suffix) = true := by
  simp [isPageName]

/-- A page's name is its stem and the suffix, with the prefix in front or a stem that does not start
with the prefix. -/
theorem name_of_stem (stripPrefix : String) (called : isPageName suffix name = true) :
    name = stripPrefix ++ stemOf suffix stripPrefix name ++ suffix ∨
      (¬stripPrefix.toList <+: (stemOf suffix stripPrefix name).toList ∧
        name = stemOf suffix stripPrefix name ++ suffix) := by
  obtain ⟨base, rfl⟩ := exists_base called
  by_cases starts : stripPrefix.toList <+: base.toList
  · obtain ⟨rest, whole⟩ := starts
    obtain rfl : base = stripPrefix ++ String.ofList rest := String.toList_inj.1 (by simp [whole])
    rw [stemOf_prefixed]
    exact Or.inl rfl
  · rw [stemOf_plain starts]
    exact Or.inr ⟨starts, rfl⟩

/-- Two file names differ exactly by the prefix in front of a stem that does not start with it. -/
def DifferByPrefix (suffix stripPrefix stem first second : String) : Prop :=
  ¬stripPrefix.toList <+: stem.toList ∧
    ((first = stem ++ suffix ∧ second = stripPrefix ++ stem ++ suffix) ∨
      (first = stripPrefix ++ stem ++ suffix ∧ second = stem ++ suffix))

/-- Two names of pages have one stem only if they differ by the prefix. -/
theorem differByPrefix_of_stem_eq (called : isPageName suffix first = true)
    (called' : isPageName suffix second = true) (differ : first ≠ second)
    (same : stemOf suffix stripPrefix first = stemOf suffix stripPrefix second) :
    DifferByPrefix suffix stripPrefix (stemOf suffix stripPrefix second) first second := by
  have whole := name_of_stem stripPrefix called
  rw [same] at whole
  rcases whole with long | ⟨plain, short⟩
  · rcases name_of_stem stripPrefix called' with long' | ⟨plain', short'⟩
    · exact absurd (long.trans long'.symm) differ
    · exact ⟨plain', Or.inr ⟨long, short'⟩⟩
  · rcases name_of_stem stripPrefix called' with long' | ⟨-, short'⟩
    · exact ⟨plain, Or.inl ⟨short, long'⟩⟩
    · exact absurd (short.trans short'.symm) differ

/-! ## Names in order -/

/-- What is wrong with a name among the names of pages. -/
inductive NameFault (suffix stripPrefix : String) (page : String → Prop) (name : String) :
    SourceError → Prop
  | empty (none : stemOf suffix stripPrefix name = "") :
      NameFault suffix stripPrefix page name (.emptyStem name)
  | taken {first : String} (some : stemOf suffix stripPrefix name ≠ "") (earlier : page first)
      (before : utf8 first < utf8 name)
      (same : stemOf suffix stripPrefix first = stemOf suffix stripPrefix name) :
      NameFault suffix stripPrefix page name
        (.duplicateStem (stemOf suffix stripPrefix name) first name)

/-- Only the names before a name matter to it. -/
theorem NameFault.congr {page page' : String → Prop}
    (alike : ∀ first, utf8 first < utf8 name → page first → page' first)
    (fault : NameFault suffix stripPrefix page name error) :
    NameFault suffix stripPrefix page' name error := by
  cases fault with
  | empty none => exact .empty none
  | taken some earlier before same => exact .taken some (alike _ before earlier) before same

/-- The stems of names, each with its name. -/
def stemmed (suffix stripPrefix : String) (names : List String) : List (String × String) :=
  names.map fun name => (stemOf suffix stripPrefix name, name)

theorem stemsOf_append (found : List (String × String)) (names later : List String) :
    stemsOf suffix stripPrefix found (names ++ later) =
      stemsOf suffix stripPrefix found names >>= (stemsOf suffix stripPrefix · later) := by
  induction names generalizing found with
  | nil => rfl
  | cons name names ih =>
    rw [List.cons_append, stemsOf, stemsOf]
    split
    · rfl
    · split
      · rfl
      · exact ih _

/-- A name behind others is added to them, unless something is wrong with it. -/
theorem stemsOf_last (behind : ∀ earlier ∈ names, utf8 earlier < utf8 name) :
    (stemsOf suffix stripPrefix (stemmed suffix stripPrefix names) [name] =
        .ok (stemmed suffix stripPrefix (names ++ [name])) ∧
      ∀ error, ¬NameFault suffix stripPrefix (· ∈ names) name error) ∨
    ∃ error, stemsOf suffix stripPrefix (stemmed suffix stripPrefix names) [name] = .error error ∧
      NameFault suffix stripPrefix (· ∈ names) name error := by
  rw [stemsOf]
  split
  · next none => exact Or.inr ⟨_, rfl, .empty none⟩
  · next some =>
    split
    · next first found =>
      obtain ⟨other, mem, same⟩ := List.mem_map.1 (mem_of_lookup found)
      obtain ⟨stem, rfl⟩ := Prod.mk.inj same
      exact Or.inr ⟨_, rfl, .taken some mem (behind other mem) stem⟩
    · next fresh =>
      refine Or.inl ⟨by simp [stemsOf, stemmed], ?_⟩
      rintro error (none | ⟨-, mem, -, same⟩)
      · exact some none
      · have absent := List.lookup_eq_none_iff.1 fresh (_, _) (List.mem_map_of_mem mem)
        simp [same] at absent

/-- A last name changes nothing for the names up to it. -/
theorem nameFault_append_iff {last : String} (before : utf8 name < utf8 last ∨ name = last) :
    NameFault suffix stripPrefix (· ∈ names ++ [last]) name error ↔
      NameFault suffix stripPrefix (· ∈ names) name error := by
  refine ⟨fun fault => fault.congr fun first less mem => ?_,
    fun fault => fault.congr fun first _ mem => List.mem_append_left _ mem⟩
  rcases List.mem_append.1 mem with old | new
  · exact old
  · rw [List.mem_singleton.1 new] at less
    rcases before with before | rfl
    · exact absurd before (List.lt_asymm less)
    · exact absurd less (List.lt_irrefl _)

/-- **Names in order are taken up to the first with which something is wrong.** -/
theorem stemsOf_outcome (suffix stripPrefix : String)
    (sorted : names.Pairwise fun a b => utf8 a < utf8 b) :
    (stemsOf suffix stripPrefix [] names = .ok (stemmed suffix stripPrefix names) ∧
      ∀ name ∈ names, ∀ error, ¬NameFault suffix stripPrefix (· ∈ names) name error) ∨
    ∃ name ∈ names, ∃ error, stemsOf suffix stripPrefix [] names = .error error ∧
      NameFault suffix stripPrefix (· ∈ names) name error ∧
      ∀ earlier ∈ names, utf8 earlier < utf8 name →
        ∀ error, ¬NameFault suffix stripPrefix (· ∈ names) earlier error := by
  induction names using List.reverseRecOn with
  | nil => exact Or.inl ⟨rfl, nofun⟩
  | append_singleton names last ih =>
    obtain ⟨sorted, -, behind⟩ := List.pairwise_append.1 sorted
    replace behind : ∀ earlier ∈ names, utf8 earlier < utf8 last :=
      fun earlier mem => behind earlier mem last List.mem_cons_self
    have old : ∀ earlier ∈ names, ∀ error,
        NameFault suffix stripPrefix (· ∈ names ++ [last]) earlier error ↔
          NameFault suffix stripPrefix (· ∈ names) earlier error :=
      fun earlier mem error => nameFault_append_iff (Or.inl (behind earlier mem))
    have new : ∀ error, NameFault suffix stripPrefix (· ∈ names ++ [last]) last error ↔
        NameFault suffix stripPrefix (· ∈ names) last error :=
      fun error => nameFault_append_iff (Or.inr rfl)
    rw [stemsOf_append]
    rcases ih sorted with ⟨done, none⟩ | ⟨name, mem, error, failed, fault, none⟩
    · rw [done]
      rcases stemsOf_last behind with ⟨added, fine⟩ | ⟨error, failed, fault⟩
      · refine Or.inl ⟨added, List.forall_mem_append.2 ⟨fun name mem error => ?_, ?_⟩⟩
        · exact (old name mem error).not.2 (none name mem error)
        · exact List.forall_mem_singleton.2 fun error => (new error).not.2 (fine error)
      · refine Or.inr ⟨last, by simp, error, failed, (new error).2 fault,
          List.forall_mem_append.2 ⟨fun name mem _ error => ?_, ?_⟩⟩
        · exact (old name mem error).not.2 (none name mem error)
        · exact List.forall_mem_singleton.2 fun less => absurd less (List.lt_irrefl _)
    · refine Or.inr ⟨name, List.mem_append_left _ mem, error, by rw [failed]; rfl,
        (old name mem error).2 fault,
        List.forall_mem_append.2 ⟨fun earlier mem less error => ?_, ?_⟩⟩
      · exact (old earlier mem error).not.2 (none earlier mem less error)
      · exact List.forall_mem_singleton.2 fun less => absurd less (List.lt_asymm (behind name mem))

/-! ## The pages of a directory -/

/-- A directory lists this name, and its path with the name behind it leads to a file. -/
def HasFile (tree : FileTree) (docs : Path) (listed : List (String × FileEntry)) (name : String) :
    Prop :=
  name ∈ listed.map (·.1) ∧ tree.isFile (docs.join ⟨name⟩) = true

/-- A directory has a file of this name, and it is that of a page. -/
def IsPage (tree : FileTree) (docs : Path) (suffix : String) (listed : List (String × FileEntry))
    (name : String) : Prop :=
  isPageName suffix name = true ∧ HasFile tree docs listed name

theorem isPage_of_mem_pageNames {tree : FileTree} {docs : Path} :
    name ∈ pageNames tree docs suffix (listed.map (·.1)) ↔ IsPage tree docs suffix listed name :=
  mem_pageNames_iff.trans and_left_comm

theorem pairwise_pageNames (tree : FileTree) (docs : Path) (suffix : String)
    (once : names.Nodup) :
    (pageNames tree docs suffix names).Pairwise fun a b => utf8 a < utf8 b := by
  refine (sorted_pageNames tree docs suffix names).imp₂ (fun a b least differ => ?_)
    (nodup_pageNames once)
  rw [utf8_lt_iff, ← String.not_le]
  exact fun greatest => differ (String.le_antisymm least greatest)

/-- If two pages have one stem, something is wrong with the later name. -/
theorem exists_fault_of_stem_eq {page : String → Prop} (here : page first) (there : page second)
    (differ : first ≠ second)
    (same : stemOf suffix stripPrefix first = stemOf suffix stripPrefix second) :
    ∃ name error, page name ∧ NameFault suffix stripPrefix page name error := by
  by_cases none : stemOf suffix stripPrefix first = ""
  · exact ⟨first, _, here, .empty none⟩
  · by_cases before : first < second
    · exact ⟨second, _, there, .taken (same ▸ none) here (utf8_lt_iff.2 before) same⟩
    · have behind : second < first := by
        rw [← String.not_le]
        exact fun least => differ (String.le_antisymm least (String.not_lt.1 before))
      exact ⟨first, _, here, .taken none there (utf8_lt_iff.2 behind) same.symm⟩

/-- Nothing is wrong with the names of a directory exactly if none has an empty stem and no two differ
by the prefix. -/
theorem faultless_iff {file : String → Prop} :
    let page name := isPageName suffix name = true ∧ file name
    (∀ name, page name → ∀ error, ¬NameFault suffix stripPrefix page name error) ↔
    (∀ name, page name → stemOf suffix stripPrefix name ≠ "") ∧
      (stripPrefix ≠ "" → ¬∃ stem : String, ¬stripPrefix.toList <+: stem.toList ∧
        file (stem ++ suffix) ∧ file (stripPrefix ++ stem ++ suffix)) := by
  intro page
  constructor
  · intro fine
    refine ⟨fun name page none => fine name page _ (.empty none), ?_⟩
    rintro some ⟨stem, plain, short, long⟩
    have differ : stem ++ suffix ≠ stripPrefix ++ stem ++ suffix := by
      intro same
      have lengths := congrArg String.length ((String.append_left_inj suffix).1 same)
      rw [String.length_append] at lengths
      exact some (String.length_eq_zero_iff.1 (by omega))
    have same : stemOf suffix stripPrefix (stem ++ suffix) =
        stemOf suffix stripPrefix (stripPrefix ++ stem ++ suffix) := by
      rw [stemOf_plain plain, stemOf_prefixed]
    have first : page (stem ++ suffix) := ⟨isPageName_append suffix stem, short⟩
    have second : page (stripPrefix ++ stem ++ suffix) :=
      ⟨isPageName_append suffix (stripPrefix ++ stem), long⟩
    obtain ⟨name, error, page, fault⟩ := exists_fault_of_stem_eq first second differ same
    exact fine name page error fault
  · rintro ⟨named, apart⟩ name here error (none | ⟨-, earlier, before, same⟩)
    · exact named name here none
    · have differ : _ ≠ name := fun same => List.lt_irrefl _ (same ▸ before)
      obtain ⟨plain, names⟩ := differByPrefix_of_stem_eq earlier.1 here.1 differ same
      refine apart (fun none => plain ?_) ⟨_, plain, ?_⟩
      · rw [none]
        exact List.nil_prefix
      · rcases names with ⟨short, long⟩ | ⟨long, short⟩
        · exact ⟨short ▸ earlier.2, long ▸ here.2⟩
        · exact ⟨short ▸ here.2, long ▸ earlier.2⟩

section Listed

variable {tree : FileTree} {docs : Path} (input : InputSettings)

/-- The pages are those of all names in order, or the error is what is wrong with the first name with
which anything is. -/
theorem enumerate_outcome (read : tree.readDirectory docs = .ok listed)
    (once : (listed.map (·.1)).Nodup) :
    let page := IsPage tree docs input.suffix listed
    let stem := stemOf input.suffix input.stripPrefix
    let fault := NameFault input.suffix input.stripPrefix page
    (enumerate tree docs input =
        .ok ((pageNames tree docs input.suffix (listed.map (·.1))).map fun name =>
          ⟨docs.join ⟨name⟩, stem name⟩) ∧
      ∀ name, page name → ∀ error, ¬fault name error) ∨
    ∃ name error, enumerate tree docs input = .error error ∧ page name ∧ fault name error ∧
      ∀ earlier, page earlier → utf8 earlier < utf8 name → ∀ error, ¬fault earlier error := by
  intro page stem fault
  have outcome := stemsOf_outcome input.suffix input.stripPrefix
    (pairwise_pageNames tree docs input.suffix once)
  simp only [isPage_of_mem_pageNames] at outcome
  rw [enumerate_of_listed read]
  rcases outcome with ⟨done, none⟩ | ⟨name, here, error, failed, wrong, none⟩
  · refine Or.inl ⟨?_, none⟩
    rw [done, Except.map, stemmed, List.map_map]
    rfl
  · exact Or.inr ⟨name, error, by rw [failed]; rfl, here, wrong, none⟩

/-- The pages are found exactly if nothing is wrong with any name. -/
theorem exists_entries_iff (read : tree.readDirectory docs = .ok listed)
    (once : (listed.map (·.1)).Nodup) :
    (∃ entries, enumerate tree docs input = .ok entries) ↔
      let page := IsPage tree docs input.suffix listed
      ∀ name, page name → ∀ error, ¬NameFault input.suffix input.stripPrefix page name error := by
  rcases enumerate_outcome input read once with ⟨done, none⟩ | ⟨name, error, failed, here, wrong, -⟩
  · exact ⟨fun _ => none, fun _ => ⟨_, done⟩⟩
  · refine ⟨?_, fun fine => absurd wrong (fine name here error)⟩
    rintro ⟨entries, found⟩
    rw [failed] at found
    cases found

/-- Pages that are found are those of all names in order, and no stem is empty. -/
theorem entries_of_enumerate (read : tree.readDirectory docs = .ok listed)
    (once : (listed.map (·.1)).Nodup) {entries : List Entry}
    (found : enumerate tree docs input = .ok entries) :
    entries = ((pageNames tree docs input.suffix (listed.map (·.1))).map fun name =>
        ⟨docs.join ⟨name⟩, stemOf input.suffix input.stripPrefix name⟩) ∧
      ∀ entry ∈ entries, entry.stem ≠ "" := by
  rcases enumerate_outcome input read once with ⟨done, none⟩ | ⟨_, _, failed, -⟩
  · rw [done] at found
    cases found
    refine ⟨rfl, fun entry mem empty => ?_⟩
    obtain ⟨name, listed, rfl⟩ := List.mem_map.1 mem
    exact none name (isPage_of_mem_pageNames.1 listed) _ (.empty empty)
  · rw [failed] at found
    cases found

/-- If the pages are not found, the error is what is wrong with the first name with which anything
is. -/
theorem fault_of_enumerate (read : tree.readDirectory docs = .ok listed)
    (once : (listed.map (·.1)).Nodup) (failed : enumerate tree docs input = .error error) :
    let page := IsPage tree docs input.suffix listed
    let fault := NameFault input.suffix input.stripPrefix page
    ∃ name, page name ∧ fault name error ∧
      ∀ earlier, page earlier → utf8 earlier < utf8 name → ∀ error, ¬fault earlier error := by
  rcases enumerate_outcome input read once with ⟨done, -⟩ | ⟨name, _, same, here, wrong, none⟩
  · rw [done] at failed
    cases failed
  · rw [same] at failed
    cases failed
    exact ⟨name, here, wrong, none⟩

/-- Two names of pages with one stem differ by the prefix. -/
theorem NameFault.differByPrefix {page : String → Prop} {stem : String}
    (called : ∀ {name}, page name → isPageName suffix name = true) (here : page name)
    (fault : NameFault suffix stripPrefix page name (.duplicateStem stem first second)) :
    page first ∧ page second ∧ DifferByPrefix suffix stripPrefix stem first second := by
  cases fault with
  | taken some earlier before same =>
    have differ : first ≠ name := fun same => List.lt_irrefl _ (same ▸ before)
    exact ⟨earlier, here, differByPrefix_of_stem_eq (called earlier) (called here) differ same⟩

/-- The order in which a directory is listed does not matter. -/
theorem pageNames_of_perm {other : FileTree} (suffix : String)
    (read : tree.readDirectory docs = .ok listed) (once : (listed.map (·.1)).Nodup)
    (read' : other.readDirectory docs = .ok listed') (order : listed'.Perm listed) :
    pageNames other docs suffix (listed'.map (·.1)) =
      pageNames tree docs suffix (listed.map (·.1)) := by
  have once' : (listed'.map (·.1)).Nodup := (order.map (·.1)).nodup_iff.2 once
  refine pageNames_eq_of_mem_iff once' (nodup_pageNames once) (sorted_pageNames _ _ _ _)
    fun name => ?_
  rw [isPage_of_mem_pageNames, isPage_of_mem_pageNames]
  refine and_congr_right fun _ => ?_
  unfold HasFile
  rw [FileTree.isFile_iff_of_listed read once, FileTree.isFile_iff_of_listed read' once']
  simp only [order.mem_iff]

/-- A directory has no pages by a path that is too long to name its files. -/
theorem enumerate_of_long (read : tree.readDirectory docs = .ok listed)
    (once : (listed.map (·.1)).Nodup)
    (long : ∀ name ∈ listed.map (·.1), FileTree.maxPathSize <
      Text.byteLength docs.text.toList + Text.byteLength name.toList) :
    enumerate tree docs input = .ok [] := by
  have none : pageNames tree docs input.suffix (listed.map (·.1)) = [] := by
    refine List.eq_nil_iff_forall_not_mem.2 fun name mem => ?_
    obtain ⟨-, file⟩ := isPage_of_mem_pageNames.1 mem
    obtain ⟨-, followed⟩ := (FileTree.isFile_iff_of_listed read once).1 file
    exact FileTree.not_canFollow_of_long (FileTree.isName_of_listed read file.1)
      (long name file.1) followed
  rw [enumerate_of_listed read, none]
  rfl

/-- **The pages of a directory are those of its file names, whatever the order in which it is
listed.** A file of the directory counts if the directory's path with its name behind it can be
followed. The pages are found if and only if no page has an empty stem and no two differ by the
prefix. Then there is one for each file name, in the order of the bytes of the names, and no two
have one stem. If they are not found, the error is what is wrong with the first name with which
anything is, and two names that have one stem differ exactly by the prefix. -/
theorem enumerate_by_names (read : tree.readDirectory docs = .ok listed)
    (once : (listed.map (·.1)).Nodup) :
    let found := enumerate tree docs input
    let file := HasFile tree docs listed
    let page := IsPage tree docs input.suffix listed
    let stem := stemOf input.suffix input.stripPrefix
    let fault := NameFault input.suffix input.stripPrefix page
    (∀ name, file name ↔
      (∃ content, (name, .file content) ∈ listed) ∧ FileTree.CanFollow docs name) ∧
    (∀ (other : FileTree) order, other.readDirectory docs = .ok order → order.Perm listed →
      enumerate other docs input = found) ∧
    ((∃ entries, found = .ok entries) ↔ (∀ name, page name → stem name ≠ "") ∧
      (input.stripPrefix ≠ "" → ¬∃ s : String, ¬input.stripPrefix.toList <+: s.toList ∧
        file (s ++ input.suffix) ∧ file (input.stripPrefix ++ s ++ input.suffix))) ∧
    (∀ entries, found = .ok entries →
      (∃ names : List String, names.Pairwise (fun a b => utf8 a < utf8 b) ∧
        (∀ name, name ∈ names ↔ page name) ∧
        entries = names.map fun name => ⟨docs.join ⟨name⟩, stem name⟩) ∧
      (entries.map (·.stem)).Nodup ∧ ∀ entry ∈ entries, entry.stem ≠ "") ∧
    (∀ error, found = .error error → ∃ name, page name ∧ fault name error ∧
      ∀ earlier, page earlier → utf8 earlier < utf8 name → ∀ error, ¬fault earlier error) ∧
    ∀ s first second, found = .error (.duplicateStem s first second) →
      page first ∧ page second ∧ DifferByPrefix input.suffix input.stripPrefix s first second := by
  intro found file page stem fault
  have any : ∀ (other : FileTree) order, other.readDirectory docs = .ok order →
      order.Perm listed → enumerate other docs input = found := by
    intro other order read' perm
    rw [enumerate_of_listed read', pageNames_of_perm input.suffix read once read' perm,
      ← enumerate_of_listed read]
  refine ⟨fun name => FileTree.isFile_iff_of_listed read once, any, ?_, ?_,
    fun error => fault_of_enumerate input read once, ?_⟩
  · exact (exists_entries_iff input read once).trans faultless_iff
  · intro entries same
    obtain ⟨rfl, named⟩ := entries_of_enumerate input read once same
    exact ⟨⟨_, pairwise_pageNames tree docs input.suffix once,
      fun name => isPage_of_mem_pageNames, rfl⟩, nodup_stems same, named⟩
  · intro s first second same
    obtain ⟨name, here, wrong, -⟩ := fault_of_enumerate input read once same
    exact wrong.differByPrefix And.left here

end Listed

/-- A directory with a page, its name with the prefix in front, and what only looks like a page. -/
def twiceA (names : List (String × FileEntry)) : FileTree :=
  ⟨[], (["doc"], .directory) :: names.map fun e => (["doc", e.1], e.2)⟩

theorem enumerate_by_names_twiceA :
    let file : FileEntry := .file (.text "")
    let input : InputSettings := .default
    let listed := [("a.7.md", file), ("lightning-.7.md", .directory), ("lightning-a.7.md", file)]
    let tree := twiceA listed
    let other := twiceA listed.reverse
    tree.readDirectory ⟨"doc"⟩ = .ok listed ∧ (listed.map (·.1)).Nodup ∧
      other.readDirectory ⟨"doc"⟩ = .ok listed.reverse ∧ listed.reverse.Perm listed ∧
      enumerate other ⟨"doc"⟩ input =
        .error (.duplicateStem "a" "a.7.md" "lightning-a.7.md") ∧
      DifferByPrefix ".7.md" "lightning-" "a" "a.7.md" "lightning-a.7.md" := by
  intro file input listed tree other
  have read : tree.readDirectory ⟨"doc"⟩ = .ok listed := by decide +kernel
  have read' : other.readDirectory ⟨"doc"⟩ = .ok listed.reverse := by decide +kernel
  have once : (listed.map (·.1)).Nodup := by decide +kernel
  have failed : enumerate tree ⟨"doc"⟩ input =
      .error (.duplicateStem "a" "a.7.md" "lightning-a.7.md") := by
    have leads : tree.locate ⟨"doc"⟩ = .ok ["doc"] := by decide +kernel
    rw [enumerate_of_sorted leads (by decide +kernel) (by decide +kernel)]
    decide +kernel
  obtain ⟨-, any, -, -, -, differ⟩ := enumerate_by_names input read once
  have perm : listed.reverse.Perm listed := List.reverse_perm listed
  exact ⟨read, once, read', perm, (any other _ read' perm).trans failed,
    (differ "a" "a.7.md" "lightning-a.7.md" failed).2.2⟩

/-- The page of a directory is left out where its path is too long, though the directory's is not. -/
theorem page_left_out_dotted :
    let docs : Path := FileTree.dotted ⟨"doc"⟩ 2045
    let listed := [("lightning-a.7.md", FileEntry.file (.text "**a**\n\nDESCRIPTION\n"))]
    let tree := twiceA listed
    let input : InputSettings := .default
    tree.readDirectory docs = .ok listed ∧ isPageName input.suffix "lightning-a.7.md" = true ∧
      stemOf input.suffix input.stripPrefix "lightning-a.7.md" = "a" ∧
      enumerate tree docs input = .ok [] := by
  intro docs listed tree input
  have size : Text.byteLength docs.text.toList = 4093 := FileTree.byteLength_dotted ⟨"doc"⟩ 2045
  have read : tree.readDirectory docs = .ok listed := by
    refine FileTree.readDirectory_eq_ok.2 ⟨["doc"], ?_, by decide +kernel, by decide +kernel⟩
    exact FileTree.locate_dotted (by decide +kernel) (by decide +kernel) (by decide +kernel)
  refine ⟨read, by decide +kernel, by decide +kernel, ?_⟩
  refine enumerate_of_long input read (by decide +kernel) fun name mem => ?_
  rw [size, List.mem_singleton.1 mem]
  decide +kernel

end Bindery.Manual
