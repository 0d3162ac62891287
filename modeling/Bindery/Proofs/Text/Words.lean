import Bindery.Proofs.Text.CaseMapping
import Bindery.Text.Words

/-!
# Names without separators

The words of a name hold no separators, and changing the case of their first letters adds none of
ASCII.
-/

namespace Bindery.Text
set_option autoImplicit false

variable {cs word : List Char} {c d : Char}

theorem mem_splitSeparators (mem : word ∈ splitSeparators cs) :
    ∀ c ∈ word, c ∈ cs ∧ isSeparator c = false := by
  induction cs generalizing word with
  | nil => simp_all [splitSeparators]
  | cons c cs ih =>
    have kept {word : List Char} (mem : word ∈ splitSeparators cs) :
        ∀ d ∈ word, d ∈ c :: cs ∧ isSeparator d = false := fun d there =>
      ⟨List.mem_cons_of_mem c (ih mem d there).1, (ih mem d there).2⟩
    unfold splitSeparators at mem
    split at mem
    · rcases List.mem_cons.1 mem with rfl | mem
      · nofun
      · exact kept mem
    · next plain =>
      rw [Bool.not_eq_true] at plain
      have first : c ∈ c :: cs ∧ isSeparator c = false := ⟨List.mem_cons_self, plain⟩
      split at mem
      · rw [List.mem_singleton.1 mem]
        exact List.forall_mem_singleton.2 first
      · next part parts split =>
        rw [split] at kept
        rcases List.mem_cons.1 mem with rfl | mem
        · exact List.forall_mem_cons.2 ⟨first, kept List.mem_cons_self⟩
        · exact kept (List.mem_cons_of_mem part mem)

/-- Words consist of characters of the name that are no separators. -/
theorem mem_words (mem : word ∈ words cs) :
    word ≠ [] ∧ ∀ c ∈ word, c ∈ cs ∧ isSeparator c = false := by
  unfold words at mem
  rw [List.mem_filter] at mem
  exact ⟨by simpa using mem.2, mem_splitSeparators mem.1⟩

/-- A word with a changed first letter consists of its characters, letters and characters outside
ASCII. -/
theorem ChangesCase.mem_first {change : Char → List Char} {inside : List Char}
    (h : ChangesCase change inside) (mem : d ∈ change c ++ cs) :
    isOutside d = true ∨ d.isAlpha = true ∨ d ∈ c :: cs := by
  rcases List.mem_append.1 mem with mem | mem
  · rcases h.mem mem with outside | letter | same
    · exact .inl outside
    · exact .inr (.inl letter)
    · exact .inr (.inr (same ▸ List.mem_cons_self))
  · exact .inr (.inr (List.mem_cons_of_mem c mem))

theorem mem_capitalize (mem : d ∈ capitalize word) :
    isOutside d = true ∨ d.isAlpha = true ∨ d ∈ word := by
  cases word with
  | nil => cases mem
  | cons c cs => exact changesCase_upper.mem_first mem

theorem mem_flatMap_capitalize {parts : List (List Char)} (within : ∀ word ∈ parts, word ∈ words cs)
    (mem : d ∈ parts.flatMap capitalize) :
    isOutside d = true ∨ d.isAlpha = true ∨ isSeparator d = false := by
  obtain ⟨word, part, mem⟩ := List.mem_flatMap.1 mem
  exact (mem_capitalize mem).imp_right (Or.imp_right fun there =>
    ((mem_words (within word part)).2 d there).2)

end Bindery.Text
