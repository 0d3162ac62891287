import Bindery.Proofs.FileTree.Naming

/-!
# Components of paths

A name joined to a path is its last component, so two such paths are the same if the paths and the
names are.
-/

namespace Bindery.Path
set_option autoImplicit false

variable {base other : Path} {name last : String}

theorem IsName.component (h : IsName name) :
    Component.ofPart name.toList = .name name := by
  have above : name.toList ≠ ['.', '.'] := fun same => h.notAbove (String.toList_inj.1 same)
  rw [Component.ofPart, if_neg above, String.ofList_toList]

theorem IsName.not_dot (h : IsName name) : name.toList ≠ ['.'] :=
  fun same => h.notHere (String.toList_inj.1 same)

/-- A name joined to a path is its last component. -/
theorem components_join (base : Path) (isName : IsName name) :
    (base.join ⟨name⟩).components = base.components ++ [.name name] := by
  by_cases empty : base.text = ""
  · have whole : base.join ⟨name⟩ = ⟨name⟩ := by simp [join, empty]
    have parts : (⟨name⟩ : Path).parts = [name.toList] := by
      rw [parts_eq, isName.not_isAbsolute, if_neg nofun, splitSlashes_of_not_mem isName.noSlash]
    have none : base.components = [] := by
      obtain ⟨text⟩ := base
      cases empty
      rfl
    rw [whole, none]
    unfold components startsWithDot
    simp [isName.not_isAbsolute, parts, isName.not_dot, isName.isReal, isName.component]
  · obtain ⟨absolute, parts, joined, own⟩ := parts_join isName empty
    have dotted : (base.join ⟨name⟩).startsWithDot = base.startsWithDot := by
      unfold startsWithDot
      rw [absolute, joined]
      cases parts with
      | nil => rcases own with own | own <;> simp [own, isName.not_dot]
      | cons part parts => rcases own with own | own <;> simp [own]
    have real : base.parts.filter isReal = parts.filter isReal := by
      rcases own with own | own
      · rw [own]
      · rw [own, List.filter_append]
        exact List.append_nil _
    unfold components
    rw [dotted, absolute, joined, real, List.filter_append, List.map_append, List.append_assoc]
    simp [isName.isReal, isName.component]

/-- Paths that end in names are the same if what is before the names is, and the names are equal. -/
theorem same_join_iff (isName : IsName name) (isLast : IsName last) :
    (base.join ⟨name⟩).same (other.join ⟨last⟩) = true ↔ base.same other = true ∧ name = last := by
  unfold same
  rw [components_join base isName, components_join other isLast, beq_iff_eq, beq_iff_eq,
    List.append_singleton_inj, Component.name.injEq]

/-- A text without slashes and an extension make a name. -/
theorem IsName.of_extension {stem extension : String} (noSlash : '/' ∉ stem.toList)
    (plain : '/' ∉ extension.toList) (long : 2 < extension.length) :
    IsName (stem ++ extension) := by
  have longer : 2 < (stem ++ extension).length := by
    rw [String.length_append]
    omega
  have other {text : String} (short : text.length ≤ 2) : stem ++ extension ≠ text :=
    fun same => Nat.not_lt.2 short (same ▸ longer)
  refine ⟨other (by decide), ?_, other (by decide), other (by decide)⟩
  rw [String.toList_append, List.mem_append, not_or]
  exact ⟨noSlash, plain⟩

end Bindery.Path
