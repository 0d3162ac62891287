import Bindery.Manual.Corpus
import Bindery.Proofs.Attempts
import Bindery.Proofs.Distinct

/-!
# Stems of pages

No two pages of a project have one stem, and reading a page keeps its stem.
-/

namespace Bindery.Manual
set_option autoImplicit false

open Project (InputSettings SourceError)

theorem nodup_stemsOf {suffix stripPrefix : String} {found stems : List (String × String)}
    {names : List String} (distinct : (found.map (·.1)).Nodup)
    (done : stemsOf suffix stripPrefix found names = .ok stems) : (stems.map (·.1)).Nodup := by
  induction names generalizing found with
  | nil =>
    cases done
    exact distinct
  | cons name names ih =>
    unfold stemsOf at done
    simp only at done
    split at done
    · cases done
    · split at done
      · cases done
      · next fresh =>
        refine ih ?_ done
        have absent : stemOf suffix stripPrefix name ∉ found.map (·.1) := by
          intro mem
          obtain ⟨old, there, same⟩ := List.mem_map.1 mem
          have other := List.lookup_eq_none_iff.1 fresh old there
          simp [same] at other
        rw [List.map_append]
        exact nodup_snoc distinct absent

/-- **No two pages have one stem.** -/
theorem nodup_stems {tree : FileTree} {docs : Path} {input : InputSettings} {entries : List Entry}
    (found : enumerate tree docs input = .ok entries) : (entries.map (·.stem)).Nodup := by
  unfold enumerate at found
  obtain ⟨listed, -, found⟩ := bind_eq_ok.1 found
  obtain ⟨stems, named, same⟩ := bind_eq_ok.1 found
  cases same
  rw [List.map_map]
  have none : (([] : List (String × String)).map (·.1)).Nodup := List.nodup_nil
  exact nodup_stemsOf none named

theorem Entry.read_stem {tree : FileTree} {schemas : Path} {input : InputSettings} {entry : Entry}
    {record : Record} (done : entry.read tree schemas input = .ok record) :
    record.stem = entry.stem := by
  unfold Entry.read at done
  cases page : (tree.readText entry.path).mapError (SourceError.unreadable entry.path) with
  | error fault =>
    rw [page] at done
    cases done
  | ok text =>
    simp only [page, bind, Except.bind] at done
    split at done
    · cases done
    · split at done
      · cases done
      · split at done
        · cases done
          rfl
        · cases done

end Bindery.Manual
