import Bindery.Json.Reader

/-!
# How read values are built

A value that is read is `null`, a truth value, a string or a number that is read, an array of such
values, or an object whose fields were set one after the other. So a property that all these steps
keep holds of every value that is read.
-/

namespace Bindery.Json
set_option autoImplicit false

/-- A property of values that the steps of reading keep. -/
structure Kept (P : Json → Prop) : Prop where
  null : P .null
  bool : ∀ b, P (.bool b)
  string : ∀ s, P (.string s)
  number : ∀ {negative cs n rest}, readNumber negative cs = some (n, rest) → P (.number n)
  array : ∀ {items : List Json}, (∀ item ∈ items, P item) → P (.array items)
  empty : P (.object [])
  field : ∀ {fields key value}, P (.object fields) → P value → P (.object (setField key value fields))

namespace Kept

variable {P : Json → Prop} {read : List Char → Option (Json × List Char)}

theorem readItems (each : ∀ cs value rest, read cs = some (value, rest) → P value) {fuel : Nat}
    {cs rest : List Char} {items : List Json}
    (done : Json.readItems read fuel cs = some (items, rest)) : ∀ item ∈ items, P item := by
  induction fuel generalizing cs rest items with
  | zero => simp [Json.readItems] at done
  | succ fuel ih =>
    obtain ⟨⟨item, behind⟩, first, done⟩ := Option.bind_eq_some_iff.1 done
    simp only at done
    split at done
    · obtain ⟨⟨others, behind⟩, later, done⟩ := Option.bind_eq_some_iff.1 done
      cases done
      exact List.forall_mem_cons.2 ⟨each _ _ _ first, ih later⟩
    · cases done
      exact List.forall_mem_singleton.2 (each _ _ _ first)
    · cases done

theorem readFields (h : Kept P) (each : ∀ cs value rest, read cs = some (value, rest) → P value)
    {fuel : Nat} {cs rest : List Char} {before fields : List (String × Json)}
    (built : P (.object before)) (done : Json.readFields read fuel cs before = some (fields, rest)) :
    P (.object fields) := by
  induction fuel generalizing cs before with
  | zero => simp [Json.readFields] at done
  | succ fuel ih =>
    unfold Json.readFields at done
    split at done
    · obtain ⟨⟨key, behind⟩, _, done⟩ := Option.bind_eq_some_iff.1 done
      simp only at done
      split at done
      · obtain ⟨⟨value, behind⟩, first, done⟩ := Option.bind_eq_some_iff.1 done
        have set : P (.object (setField (String.ofList key) value before)) :=
          h.field built (each _ _ _ first)
        simp only at done
        split at done
        · exact ih set done
        · cases done
          exact set
        · cases done
      · cases done
    · cases done

theorem readValue (h : Kept P) (depth : Nat) {cs rest : List Char} {value : Json}
    (done : Json.readValue depth cs = some (value, rest)) : P value := by
  induction depth using Nat.strongRecOn generalizing cs rest value with
  | _ depth ih =>
    unfold Json.readValue at done
    split at done
    · cases done
      exact h.null
    · cases done
      exact h.bool true
    · cases done
      exact h.bool false
    · obtain ⟨r, _, same⟩ := Option.map_eq_some_iff.1 done
      cases same
      exact h.string _
    · obtain ⟨r, read, same⟩ := Option.map_eq_some_iff.1 done
      cases same
      exact h.number read
    · split at done
      · cases done
        exact h.array (by simp)
      · obtain ⟨r, items, same⟩ := Option.map_eq_some_iff.1 done
        cases same
        exact h.array (readItems (fun _ _ _ => ih _ (Nat.lt_succ_self _)) items)
    · split at done
      · cases done
        exact h.empty
      · obtain ⟨r, fields, same⟩ := Option.map_eq_some_iff.1 done
        cases same
        exact h.readFields (fun _ _ _ => ih _ (Nat.lt_succ_self _)) h.empty fields
    · obtain ⟨r, read, same⟩ := Option.map_eq_some_iff.1 done
      cases same
      exact h.number read

/-- **Every value that is read has a property that the steps of reading keep.** -/
theorem of_parse? (h : Kept P) {text : String} {value : Json} (done : parse? text = some value) :
    P value := by
  obtain ⟨⟨v, rest⟩, read, done⟩ := Option.bind_eq_some_iff.1 done
  simp only at done
  split at done
  · cases done
    exact h.readValue _ read
  · cases done

end Kept

end Bindery.Json
