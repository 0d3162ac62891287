import Bindery.Proofs.Distinct
import Bindery.Text.Letter

/-!
# Where case mappings lead

The case mappings of a character give letters of ASCII, characters outside ASCII and the character
itself. Only a few characters outside ASCII have an upper or lower case that is in ASCII.
-/

namespace Bindery.Text
set_option autoImplicit false

/-- Whether a character is outside ASCII. -/
def isOutside (c : Char) : Bool :=
  0x80 ≤ c.toNat

/-- Whether all of a run moves to characters outside ASCII. -/
def CaseRun.leadsOutside (r : CaseRun) : Bool :=
  0x80 ≤ r.first + r.shift &&
    (r.last + r.shift < 0xD800 || 0xDFFF < r.first + r.shift && r.last + r.shift < 0x110000)

theorem toNat_ofNat {n : Nat} (valid : n.isValidChar) : (Char.ofNat n).toNat = n := by
  rw [Char.ofNat, dif_pos valid]
  rfl

theorem CaseRun.isOutside_of_leadsOutside {r : CaseRun} (outside : r.leadsOutside = true) {n : Nat}
    (held : r.holds n = true) : isOutside (Char.ofNat (n + r.shift).toNat) = true := by
  unfold holds at held
  unfold leadsOutside at outside
  simp only [Bool.and_eq_true, Bool.or_eq_true, decide_eq_true_eq] at held outside
  obtain ⟨⟨first, last⟩, -⟩ := held
  obtain ⟨above, below⟩ := outside
  have valid : (n + r.shift).toNat.isValidChar := by
    unfold Nat.isValidChar
    omega
  unfold isOutside
  rw [toNat_ofNat valid, decide_eq_true_eq]
  omega

theorem CaseRun.eq_first_of_holds {r : CaseRun} (single : r.first = r.last) {n : Nat}
    (held : r.holds n = true) : n = r.first := by
  unfold holds at held
  simp only [Bool.and_eq_true, decide_eq_true_eq] at held
  obtain ⟨⟨first, last⟩, -⟩ := held
  exact Nat.le_antisymm (single ▸ last) first

/-- A table of case mappings gives letters of ASCII and characters outside ASCII, and some of the
latter for each character that is not listed. -/
structure LeadsInside (sequences : List (Nat × List Nat)) (runs : List CaseRun)
    (listed : List Char) : Prop where
  codes : ∀ e ∈ sequences, ∀ code ∈ e.2,
    isOutside (Char.ofNat code) = true ∨ (Char.ofNat code).isAlpha = true
  sequence : ∀ e ∈ sequences,
    Char.ofNat e.1 ∈ listed ∨ ∃ code ∈ e.2, isOutside (Char.ofNat code) = true
  run : ∀ r ∈ runs, r.leadsOutside = true ∨
    r.first = r.last ∧ Char.ofNat r.first ∈ listed ∧
      (Char.ofNat (r.first + r.shift).toNat).isAlpha = true

namespace LeadsInside

variable {sequences : List (Nat × List Nat)} {runs : List CaseRun} {listed : List Char}
  {c d : Char}

theorem image (h : LeadsInside sequences runs listed) (start : isOutside c = true)
    (mem : d ∈ mapCase sequences runs c) : isOutside d = true ∨ d.isAlpha = true := by
  unfold mapCase at mem
  split at mem
  · next codes found =>
    obtain ⟨code, there, rfl⟩ := List.mem_map.1 mem
    exact h.codes _ (mem_of_lookup found) code there
  · split at mem
    · next run found =>
      have held := List.find?_some found
      rw [List.mem_singleton.1 mem]
      rcases h.run run (List.mem_of_find?_eq_some found) with outside | ⟨single, -, letter⟩
      · exact .inl (run.isOutside_of_leadsOutside outside held)
      · rw [run.eq_first_of_holds single held]
        exact .inr letter
    · rw [List.mem_singleton.1 mem]
      exact .inl start

theorem remains (h : LeadsInside sequences runs listed) (start : isOutside c = true)
    (apart : c ∉ listed) : ∃ d ∈ mapCase sequences runs c, isOutside d = true := by
  unfold mapCase
  split
  · next codes found =>
    rcases h.sequence _ (mem_of_lookup found) with inside | ⟨code, there, outside⟩
    · rw [Char.ofNat_toNat] at inside
      exact absurd inside apart
    · exact ⟨_, List.mem_map_of_mem there, outside⟩
  · split
    · next run found =>
      have held := List.find?_some found
      rcases h.run run (List.mem_of_find?_eq_some found) with outside | ⟨single, inside, -⟩
      · exact ⟨_, List.mem_singleton_self _, run.isOutside_of_leadsOutside outside held⟩
      · rw [← run.eq_first_of_holds single held, Char.ofNat_toNat] at inside
        exact absurd inside apart
    · exact ⟨c, List.mem_singleton_self c, start⟩

end LeadsInside

/-! ## Changes of case -/

/-- A change of case takes letters of ASCII to letters and keeps the rest of ASCII. Of the
characters outside ASCII it takes those that are listed to letters, and some of each other stays
outside. -/
structure ChangesCase (change : Char → List Char) (inside : List Char) : Prop where
  ascii : ∀ c, isOutside c = false →
    ∃ d, change c = [d] ∧ (d.isAlpha = true ∧ c.isAlpha = true ∨ d = c)
  image : ∀ c d, isOutside c = true → d ∈ change c → isOutside d = true ∨ d.isAlpha = true
  remains : ∀ c, isOutside c = true → c ∉ inside → ∃ d ∈ change c, isOutside d = true
  enters : ∀ c ∈ inside, isOutside c = true ∧ change c ≠ [] ∧ ∀ d ∈ change c, d.isAlpha = true

namespace ChangesCase

variable {change : Char → List Char} {inside : List Char} {c d : Char}

/-- What a change of case gives besides the character itself. -/
theorem mem (h : ChangesCase change inside) (mem : d ∈ change c) :
    isOutside d = true ∨ d.isAlpha = true ∨ d = c := by
  cases start : isOutside c with
  | false =>
    obtain ⟨e, single, kept⟩ := h.ascii c start
    rw [single] at mem
    rw [List.mem_singleton.1 mem]
    exact .inr (kept.imp_left And.left)
  | true => exact (h.image c d start mem).imp_right .inl

theorem ne_nil (h : ChangesCase change inside) (c : Char) : change c ≠ [] := by
  cases start : isOutside c with
  | false =>
    obtain ⟨d, single, -⟩ := h.ascii c start
    simp [single]
  | true =>
    by_cases listed : c ∈ inside
    · exact (h.enters c listed).2.1
    · obtain ⟨d, mem, -⟩ := h.remains c start listed
      exact List.ne_nil_of_mem mem

end ChangesCase

/-- A change of case by a table, and one by one in ASCII. -/
theorem changesCase_of_table {sequences : List (Nat × List Nat)} {runs : List CaseRun}
    {near : Char → Char} {inside : List Char} (table : LeadsInside sequences runs inside)
    (letters : ∀ n < 0x80, (near (Char.ofNat n)).isAlpha = true ∧ (Char.ofNat n).isAlpha = true ∨
      near (Char.ofNat n) = Char.ofNat n)
    (enters : inside.all (fun c => isOutside c && mapCase sequences runs c != [] &&
      (mapCase sequences runs c).all Char.isAlpha) = true) :
    ChangesCase (fun c => if c.toNat < 0x80 then [near c] else mapCase sequences runs c) inside := by
  have far {c : Char} (start : isOutside c = true) : ¬c.toNat < 0x80 := by
    simpa [isOutside] using start
  simp only [List.all_eq_true, Bool.and_eq_true, bne_iff_ne, and_assoc] at enters
  refine ⟨fun c start => ?_, fun c d start mem => ?_, fun c start apart => ?_, fun c mem => ?_⟩
  · have ascii : c.toNat < 0x80 := by simpa [isOutside] using start
    have kept := letters c.toNat ascii
    rw [c.ofNat_toNat] at kept
    exact ⟨near c, if_pos ascii, kept⟩
  · rw [if_neg (far start)] at mem
    exact table.image start mem
  · rw [if_neg (far start)]
    exact table.remains start apart
  · rw [if_neg (far (enters c mem).1)]
    exact enters c mem

/-- The characters outside ASCII whose upper case is in ASCII. -/
def upperInside : List Char :=
  ['ı', 'ſ', 'ß', 'ﬀ', 'ﬁ', 'ﬂ', 'ﬃ', 'ﬄ', 'ﬅ', 'ﬆ']

/-- The one character outside ASCII whose lower case is in ASCII, the sign for kelvins. -/
def lowerInside : List Char :=
  [Char.ofNat 0x212A]

theorem changesCase_upper : ChangesCase upper upperInside :=
  changesCase_of_table ⟨by decide +kernel, by decide +kernel, by decide +kernel⟩
    (by decide +kernel) (by decide +kernel)

theorem changesCase_lower : ChangesCase lower lowerInside :=
  changesCase_of_table ⟨by decide +kernel, by decide +kernel, by decide +kernel⟩
    (by decide +kernel) (by decide +kernel)

end Bindery.Text
