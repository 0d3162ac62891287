import Bindery.Proofs.FileTree.Places

/-!
# Names in a directory

Where a directory's path and a name, joined, lead.
-/

namespace Bindery
set_option autoImplicit false

namespace Path

theorem splitSlashes_ne_nil (cs : List Char) : splitSlashes cs ≠ [] := by
  cases cs with
  | nil => nofun
  | cons c cs =>
    unfold splitSlashes
    split
    · nofun
    · split <;> nofun

theorem splitSlashes_of_not_mem {cs : List Char} (none : '/' ∉ cs) : splitSlashes cs = [cs] := by
  induction cs with
  | nil => rfl
  | cons c cs ih =>
    rw [List.mem_cons, not_or] at none
    rw [splitSlashes, if_neg (Ne.symm none.1), ih none.2]

theorem splitSlashes_append_slash (as bs : List Char) :
    splitSlashes (as ++ '/' :: bs) = splitSlashes as ++ splitSlashes bs := by
  induction as with
  | nil => simp [splitSlashes]
  | cons a as ih =>
    rw [List.cons_append, splitSlashes, splitSlashes, ih]
    split
    · rfl
    · cases parts : splitSlashes as with
      | nil => exact absurd parts (splitSlashes_ne_nil as)
      | cons part parts => rfl

theorem parts_eq (p : Path) :
    p.parts = if p.isAbsolute then (splitSlashes p.text.toList).tail
      else splitSlashes p.text.toList := by
  unfold parts isAbsolute
  cases p.text.toList with
  | nil => rfl
  | cons c cs =>
    by_cases slash : c = '/'
    · simp [slash, splitSlashes]
    · simp [slash]

namespace IsName

variable {name : String}

theorem toList_ne_nil (h : IsName name) : name.toList ≠ [] := by
  simpa using h.notEmpty

theorem isReal (h : IsName name) : Path.isReal name.toList = true := by
  have dot : name.toList ≠ ['.'] := fun same => h.notHere (String.toList_inj.1 same)
  simp [Path.isReal, h.toList_ne_nil, dot]

theorem not_isAbsolute (h : IsName name) : (⟨name⟩ : Path).isAbsolute = false := by
  have none := h.noSlash
  unfold isAbsolute
  simp only
  cases cs : name.toList with
  | nil => rfl
  | cons c cs' =>
    rw [cs, List.mem_cons, not_or] at none
    simpa using Ne.symm none.1

end IsName

/-- The parts of a path with a slash somewhere. -/
theorem parts_of_slash {p : Path} {lead rest : List Char}
    (text : p.text.toList = lead ++ '/' :: rest) :
    p.parts = (if p.isAbsolute then (splitSlashes lead).tail else splitSlashes lead) ++
      splitSlashes rest := by
  rw [parts_eq, text, splitSlashes_append_slash]
  split
  · rw [List.tail_append_of_ne_nil (splitSlashes_ne_nil lead)]
  · rfl

/-- Joining a name to a path adds a part, in place of the empty part behind a last slash. -/
theorem parts_join {base : Path} {name : String} (isName : IsName name) (named : base.text ≠ "") :
    (base.join ⟨name⟩).isAbsolute = base.isAbsolute ∧
      ∃ parts, (base.join ⟨name⟩).parts = parts ++ [name.toList] ∧
        (base.parts = parts ∨ base.parts = parts ++ [[]]) := by
  unfold join
  rw [isName.not_isAbsolute, Bool.false_or, if_neg (by simpa using named)]
  split
  · next slash =>
    obtain ⟨lead, whole⟩ := List.getLast?_eq_some_iff.1 (LawfulBEq.eq_of_beq slash)
    have text : (⟨base.text ++ name⟩ : Path).text.toList = lead ++ '/' :: name.toList := by
      simp [whole]
    have absolute : (⟨base.text ++ name⟩ : Path).isAbsolute = base.isAbsolute := by
      unfold isAbsolute
      rw [text, whole]
      cases lead <;> rfl
    refine ⟨absolute, _, ?_, .inr (parts_of_slash whole)⟩
    rw [parts_of_slash text, absolute, splitSlashes_of_not_mem isName.noSlash]
  · have text : (⟨base.text ++ "/" ++ name⟩ : Path).text.toList =
        base.text.toList ++ '/' :: name.toList := by simp
    have absolute : (⟨base.text ++ "/" ++ name⟩ : Path).isAbsolute = base.isAbsolute := by
      unfold isAbsolute
      rw [text, List.head?_append_of_ne_nil _ (by simpa using named)]
    refine ⟨absolute, base.parts, ?_, .inl rfl⟩
    rw [parts_of_slash text, absolute, splitSlashes_of_not_mem isName.noSlash, parts_eq base]

end Path

namespace FileTree

open Bindery.Path (IsName)

variable {tree : FileTree} {docs : Path} {place : Place} {name : String}

theorem step_name (directory : tree.lookup place = some .directory) (isName : IsName name) :
    tree.step place name.toList =
      if Text.byteLength name.toList > maxNameSize then .error .tooLong
      else .ok (place ++ [name]) := by
  have above : name.toList ≠ ['.', '.'] := fun same => isName.notAbove (String.toList_inj.1 same)
  unfold step
  simp [directory, isName.isReal, above]

theorem stay {next : Place} (taken : tree.step place [] = .ok next) : next = place := by
  unfold step at taken
  split at taken
  · cases taken
  · cases taken
  · cases taken
    rfl

/-- The path of a name in a directory that is there leads one step behind the directory, unless it
is too long or holds a NUL. -/
theorem locate_join (leads : tree.locate docs = .ok place)
    (directory : tree.lookup place = some .directory) (isName : IsName name) :
    tree.locate (docs.join ⟨name⟩) =
      match pathFault? (docs.join ⟨name⟩) with
      | some fault => .error fault
      | none =>
        if Text.byteLength name.toList > maxNameSize then .error .tooLong
        else .ok (place ++ [name]) := by
  have named : docs.text ≠ "" := by
    intro empty
    simp [locate, pathFault?, empty] at leads
  obtain ⟨absolute, parts, joined, own⟩ := Path.parts_join isName named
  have start : tree.startOf (docs.join ⟨name⟩) = tree.startOf docs := by
    unfold startOf
    rw [absolute]
  have before : parts.foldlM tree.step (tree.startOf docs) = .ok place := by
    unfold locate at leads
    split at leads
    · cases leads
    · rcases own with own | own
      · rwa [own] at leads
      · -- The empty part behind a last slash stays where it is.
        rw [own, List.foldlM_append, bind_eq_ok] at leads
        obtain ⟨reached, before, stayed⟩ := leads
        rw [List.foldlM_cons, bind_eq_ok] at stayed
        obtain ⟨last, stayed, same⟩ := stayed
        cases same
        rw [before, ← stay stayed]
  unfold locate
  cases pathFault? (docs.join ⟨name⟩) with
  | some fault => rfl
  | none =>
    simp only [joined, start, List.foldlM_append, before, List.foldlM_cons, List.foldlM_nil,
      bind_pure]
    exact step_name directory isName

end FileTree

end Bindery
