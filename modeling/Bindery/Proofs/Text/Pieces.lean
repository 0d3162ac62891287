import Mathlib.Data.List.Forall2
import Mathlib.Data.List.TakeWhile

/-!
# Texts in pieces

When a text can be cut into pieces in one way only. A run of characters of a kind ends where the
first other character stands, and pieces with a separator between them can be told apart if each can
be told from what may follow it.
-/

namespace Bindery.Text
set_option autoImplicit false

/-- Two pieces, each in front of something that may follow it, are the same text only if `P`, and
then the same follows them. -/
def SameOnlyIf (Follows : List Char → Prop) (piece piece' : List Char) (P : Prop) : Prop :=
  ∀ ⦃rest rest' : List Char⦄, Follows rest → Follows rest' → piece ++ rest = piece' ++ rest' →
    P ∧ rest = rest'

/-- No character of this kind stands at the start of a text. -/
def StopsAt (kind : Char → Bool) (rest : List Char) : Prop :=
  ∀ c ∈ rest.head?, kind c = false

/-- A text is empty or starts with one of these characters. -/
def StartsIn (marks : List Char) (rest : List Char) : Prop :=
  ∀ c ∈ rest.head?, c ∈ marks

theorem startsIn_cons {marks : List Char} {c : Char} (mem : c ∈ marks) (rest : List Char) :
    StartsIn marks (c :: rest) := fun _ first => Option.some.inj first ▸ mem

theorem StartsIn.mono {marks marks' rest : List Char} (h : StartsIn marks rest)
    (more : marks ⊆ marks') : StartsIn marks' rest := fun c first => more (h c first)

theorem StartsIn.stopsAt {marks rest : List Char} (h : StartsIn marks rest) {kind : Char → Bool}
    (none : marks.any kind = false) : StopsAt kind rest := fun c first => by
  simpa using List.any_eq_false.1 none c (h c first)

/-- What all characters of pieces and of the text between them have, all characters have. -/
theorem forall_mem_intercalate {p : Char → Prop} {between : List Char} {pieces : List (List Char)}
    (apart : ∀ c ∈ between, p c) (each : ∀ piece ∈ pieces, ∀ c ∈ piece, p c) :
    ∀ c ∈ between.intercalate pieces, p c := by
  induction pieces with
  | nil => nofun
  | cons piece pieces ih =>
    rw [List.forall_mem_cons] at each
    cases pieces with
    | nil => simpa using each.1
    | cons next pieces =>
      rw [List.intercalate_cons_cons, List.forall_mem_append, List.forall_mem_append]
      exact ⟨⟨each.1, apart⟩, ih each.2⟩

namespace SameOnlyIf

variable {Follows Follows' : List Char → Prop} {piece piece' next next' : List Char} {P Q : Prop}

theorem imp (h : SameOnlyIf Follows piece piece' P) (weaker : P → Q) :
    SameOnlyIf Follows piece piece' Q := fun _ _ follows follows' same =>
  (h follows follows' same).imp_left weaker

theorem mono (h : SameOnlyIf Follows piece piece' P) (fewer : ∀ rest, Follows' rest → Follows rest) :
    SameOnlyIf Follows' piece piece' P := fun _ _ follows follows' same =>
  h (fewer _ follows) (fewer _ follows') same

/-- One piece after another. -/
theorem append (h : SameOnlyIf Follows piece piece' P) (h' : SameOnlyIf Follows' next next' Q)
    (follows : ∀ rest, Follows' rest → Follows (next ++ rest) ∧ Follows (next' ++ rest)) :
    SameOnlyIf Follows' (piece ++ next) (piece' ++ next') (P ∧ Q) := by
  intro rest rest' ends ends' same
  rw [List.append_assoc, List.append_assoc] at same
  obtain ⟨first, same⟩ := h (follows rest ends).1 (follows rest' ends').2 same
  obtain ⟨second, same⟩ := h' ends ends' same
  exact ⟨⟨first, second⟩, same⟩

/-- Pieces that end in the same way. -/
theorem close (h : SameOnlyIf Follows piece piece' P) {ending : List Char}
    (follows : ∀ rest, Follows (ending ++ rest)) :
    SameOnlyIf Follows' (piece ++ ending) (piece' ++ ending) P := by
  intro rest rest' _ _ same
  rw [List.append_assoc, List.append_assoc] at same
  exact (h (follows _) (follows _) same).imp_right List.append_cancel_left

/-- Pieces that start in the same way. -/
theorem prepend (h : SameOnlyIf Follows piece piece' P) (start : List Char) :
    SameOnlyIf Follows (start ++ piece) (start ++ piece') P := by
  intro rest rest' follows follows' same
  rw [List.append_assoc, List.append_assoc] at same
  exact h follows follows' (List.append_cancel_left same)

end SameOnlyIf

/-- A run of characters of one kind can be told from what follows it. -/
theorem sameOnlyIf_run {kind : Char → Bool} {run run' : List Char} (all : ∀ c ∈ run, kind c = true)
    (all' : ∀ c ∈ run', kind c = true) : SameOnlyIf (StopsAt kind) run run' (run = run') := by
  intro rest rest' stops stops' same
  have taken {run rest : List Char} (all : ∀ c ∈ run, kind c = true) (stops : StopsAt kind rest) :
      (run ++ rest).takeWhile kind = run := by
    rw [List.takeWhile_append_of_pos all]
    cases rest with
    | nil => simp
    | cons c rest => simp [stops c rfl]
  have first : run = run' := by
    rw [← taken all stops, same, taken all' stops']
  subst first
  exact ⟨rfl, List.append_cancel_left same⟩

/-- Pieces with a separator between them can be told apart, if what follows the last piece does not
start with the separator. -/
theorem sameOnlyIf_intercalate {α β : Type} {R : α → β → Prop} {write : α → List Char}
    {write' : β → List Char} {separator : List Char} {Follows : List Char → Prop}
    (separated : ∀ rest, Follows (separator ++ rest)) {xs : List α} {ys : List β}
    (each : ∀ x ∈ xs, ∀ y ∈ ys, SameOnlyIf Follows (write x) (write' y) (R x y))
    (some : xs ≠ []) (some' : ys ≠ []) :
    SameOnlyIf (fun rest => Follows rest ∧ ¬separator <+: rest) (separator.intercalate (xs.map write))
      (separator.intercalate (ys.map write')) (List.Forall₂ R xs ys) := by
  intro rest rest' follows follows' same
  induction xs generalizing ys with
  | nil => contradiction
  | cons x xs ih =>
    obtain ⟨y, ys, rfl⟩ := List.exists_cons_of_ne_nil some'
    have here := each x List.mem_cons_self y List.mem_cons_self
    -- Only one side goes on: then its separator would start what follows the other.
    have alone {rest others : List Char} (ends : ¬separator <+: rest) :
        rest ≠ separator ++ others := fun same => ends (same ▸ List.prefix_append _ _)
    cases xs with
    | nil =>
      cases ys with
      | nil =>
        simp only [List.map_cons, List.map_nil, List.intercalate_singleton] at same
        obtain ⟨first, same⟩ := here follows.1 follows'.1 same
        exact ⟨.cons first .nil, same⟩
      | cons y' ys =>
        simp only [List.map_cons, List.map_nil, List.intercalate_singleton,
          List.intercalate_cons_cons, List.append_assoc] at same
        exact absurd (here follows.1 (separated _) same).2 (alone follows.2)
    | cons x' xs =>
      cases ys with
      | nil =>
        simp only [List.map_cons, List.map_nil, List.intercalate_singleton,
          List.intercalate_cons_cons, List.append_assoc] at same
        exact absurd (here (separated _) follows'.1 same).2.symm (alone follows'.2)
      | cons y' ys =>
        simp only [List.map_cons, List.intercalate_cons_cons, List.append_assoc] at same
        obtain ⟨first, same⟩ := here (separated _) (separated _) same
        have later : ∀ x ∈ x' :: xs, ∀ y ∈ y' :: ys,
            SameOnlyIf Follows (write x) (write' y) (R x y) := fun x mem y mem' =>
          each x (List.mem_cons_of_mem _ mem) y (List.mem_cons_of_mem _ mem')
        obtain ⟨others, same⟩ := ih later (List.cons_ne_nil _ _) (List.cons_ne_nil _ _)
          (List.append_cancel_left same)
        exact ⟨.cons first others, same⟩

/-- Pieces between which a separator stands, and behind which an end does. There may be none. -/
theorem sameOnlyIf_enclosed {α β : Type} {R : α → β → Prop} {write : α → List Char}
    {write' : β → List Char} {separator close : List Char} {Follows Follows' : List Char → Prop}
    (separated : ∀ rest, Follows (separator ++ rest))
    (closed : ∀ rest, Follows (close ++ rest) ∧ ¬separator <+: close ++ rest) {xs : List α}
    {ys : List β} (each : ∀ x ∈ xs, ∀ y ∈ ys, SameOnlyIf Follows (write x) (write' y) (R x y))
    (apart : ∀ x ∈ xs, ∀ rest rest', write x ++ rest ≠ close ++ rest')
    (apart' : ∀ y ∈ ys, ∀ rest rest', write' y ++ rest ≠ close ++ rest') :
    SameOnlyIf Follows' (separator.intercalate (xs.map write) ++ close)
      (separator.intercalate (ys.map write') ++ close) (List.Forall₂ R xs ys) := by
  -- A list that is not empty starts as its first piece does.
  have start (piece : List Char) (pieces : List (List Char)) :
      ∃ rest, separator.intercalate (piece :: pieces) = piece ++ rest := by
    cases pieces with
    | nil => exact ⟨[], by simp⟩
    | cons next pieces => exact ⟨_, by rw [List.intercalate_cons_cons, List.append_assoc]⟩
  cases xs with
  | nil =>
    cases ys with
    | nil => exact fun _ _ _ _ same => ⟨.nil, List.append_cancel_left same⟩
    | cons y ys =>
      intro rest rest' _ _ same
      obtain ⟨more, first⟩ := start (write' y) (ys.map write')
      simp only [List.map_nil, List.intercalate_nil, List.nil_append, List.map_cons, first,
        List.append_assoc] at same
      exact absurd same.symm (apart' y List.mem_cons_self _ _)
  | cons x xs =>
    cases ys with
    | nil =>
      intro rest rest' _ _ same
      obtain ⟨more, first⟩ := start (write x) (xs.map write)
      simp only [List.map_nil, List.intercalate_nil, List.nil_append, List.map_cons, first,
        List.append_assoc] at same
      exact absurd same (apart x List.mem_cons_self _ _)
    | cons y ys =>
      exact (sameOnlyIf_intercalate separated each (List.cons_ne_nil _ _)
        (List.cons_ne_nil _ _)).close closed

end Bindery.Text
