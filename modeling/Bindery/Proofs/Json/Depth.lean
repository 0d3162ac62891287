import Bindery.Json.Basic
import Bindery.Proofs.Distinct

/-!
# Parts are less deep

An item of an array and the value of a field are less deep than the value that holds them, which
carries inductions on values that look a field up.
-/

namespace Bindery.Json
set_option autoImplicit false

variable {items : List Json} {fields : List (String × Json)}

theorem depth_le_depthItems {item : Json} (mem : item ∈ items) : item.depth ≤ depthItems items := by
  induction items with
  | nil => cases mem
  | cons first rest ih =>
    rw [depthItems]
    rcases List.mem_cons.1 mem with rfl | mem
    · omega
    · have := ih mem
      omega

theorem depth_le_depthFields {field : String × Json} (mem : field ∈ fields) :
    field.2.depth ≤ depthFields fields := by
  induction fields with
  | nil => cases mem
  | cons first rest ih =>
    obtain ⟨key, value⟩ := first
    rw [depthFields]
    rcases List.mem_cons.1 mem with rfl | mem
    · simp only
      omega
    · have := ih mem
      omega

theorem depth_item_lt {item : Json} (mem : item ∈ items) : item.depth < (Json.array items).depth := by
  rw [depth]
  exact Nat.lt_succ_of_le (depth_le_depthItems mem)

theorem depth_field_lt {field : String × Json} (mem : field ∈ fields) :
    field.2.depth < (Json.object fields).depth := by
  rw [depth]
  exact Nat.lt_succ_of_le (depth_le_depthFields mem)

theorem depth_lookup_lt {key : String} {value : Json} (found : fields.lookup key = some value) :
    value.depth < (Json.object fields).depth :=
  depth_field_lt (mem_of_lookup found)

/-- Induction on values by their depth. -/
@[elab_as_elim]
theorem inductDepth {motive : Json → Prop}
    (step : ∀ value : Json, (∀ part : Json, part.depth < value.depth → motive part) → motive value)
    (value : Json) : motive value :=
  (measure depth).wf.induction value step

end Bindery.Json
