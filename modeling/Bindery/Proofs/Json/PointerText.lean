import Bindery.Json.Pointer
import Bindery.Proofs.FileTree.Naming

/-!
# Reading pointers

A pointer as text is read by cutting it at its slashes and undoing the escapes of each step, `~1`
for a slash and `~0` for a tilde. What a pointer was written as is read back as the pointer, so no
two pointers have one text.
-/

namespace Bindery.Json
set_option autoImplicit false

namespace Pointer

/-- The step that a text stands for, none if a tilde is followed by neither `0` nor `1`. -/
def unescape? : List Char → Option (List Char)
  | [] => some []
  | '~' :: '0' :: cs => (unescape? cs).map ('~' :: ·)
  | '~' :: '1' :: cs => (unescape? cs).map ('/' :: ·)
  | '~' :: _ => none
  | c :: cs => (unescape? cs).map (c :: ·)

/-- The pointer that a text stands for: empty text for the whole value, else steps that each follow
a slash. -/
def ofText? (text : String) : Option Pointer :=
  match Path.splitSlashes text.toList with
  | [] :: steps => steps.mapM fun step => (unescape? step).map String.ofList
  | _ => none

/-- A step as it stands in a text. -/
def escaped (step : String) : List Char :=
  step.toList.flatMap escapeChar

theorem unescape?_escapeChar (c : Char) (cs : List Char) :
    unescape? (escapeChar c ++ cs) = (unescape? cs).map (c :: ·) := by
  unfold escapeChar
  split
  · next tilde =>
    rw [tilde]
    rfl
  · next plain =>
    split
    · next slash =>
      rw [slash]
      rfl
    · rw [List.singleton_append, unescape?.eq_def]
      split
      · next same => cases same
      · next same => exact absurd (List.cons.inj same).1 plain
      · next same => exact absurd (List.cons.inj same).1 plain
      · next same => exact absurd (List.cons.inj same).1 plain
      · next same =>
        cases same
        rfl

theorem unescape?_escaped (step : String) : unescape? (escaped step) = some step.toList := by
  have each : ∀ cs : List Char, unescape? (cs.flatMap escapeChar) = some cs := by
    intro cs
    induction cs with
    | nil => rfl
    | cons c cs ih => rw [List.flatMap_cons, unescape?_escapeChar, ih, Option.map_some]
  exact each step.toList

theorem slash_not_mem_escaped (step : String) : '/' ∉ escaped step := by
  intro mem
  obtain ⟨c, -, mem⟩ := List.mem_flatMap.1 mem
  unfold escapeChar at mem
  split at mem
  · simp at mem
  · split at mem
    · simp at mem
    · next other => exact other (List.mem_singleton.1 mem).symm

theorem toList_text (pointer : Pointer) :
    pointer.text.toList = pointer.flatMap fun step => '/' :: escaped step := by
  have onto : ∀ (pointer : Pointer) (out : String),
      (pointer.foldl (fun out step => out ++ stepText step) out).toList =
        out.toList ++ pointer.flatMap fun step => '/' :: escaped step := by
    intro pointer
    induction pointer with
    | nil => simp
    | cons step rest ih =>
      intro out
      rw [List.foldl_cons, ih, List.flatMap_cons]
      simp [stepText, escaped]
  unfold text
  rw [onto]
  rfl

/-- The slashes of a pointer's text are those in front of its steps. -/
theorem splitSlashes_steps {cs : List Char} (noSlash : '/' ∉ cs) (pointer : Pointer) :
    Path.splitSlashes (cs ++ pointer.flatMap fun step => '/' :: escaped step) =
      cs :: pointer.map escaped := by
  induction pointer generalizing cs with
  | nil => simpa using Path.splitSlashes_of_not_mem noSlash
  | cons step rest ih =>
    rw [List.flatMap_cons, List.cons_append, Path.splitSlashes_append_slash,
      Path.splitSlashes_of_not_mem noSlash, ih (slash_not_mem_escaped step)]
    rfl

/-- **A pointer is read back from its text.** -/
theorem ofText?_text (pointer : Pointer) : ofText? pointer.text = some pointer := by
  have parts := splitSlashes_steps (List.not_mem_nil (a := '/')) pointer
  rw [List.nil_append, ← toList_text] at parts
  unfold ofText?
  simp only [parts]
  rw [List.mapM_map]
  have steps : ∀ pointer : Pointer,
      pointer.mapM (fun step => (unescape? (escaped step)).map String.ofList) = some pointer := by
    intro pointer
    induction pointer with
    | nil => rfl
    | cons step rest ih =>
      rw [List.mapM_cons, unescape?_escaped, ih, Option.map_some, String.ofList_toList]
      rfl
  exact steps pointer

theorem text_injective : Function.Injective text := fun p q same => by
  have read := ofText?_text p
  rw [same, ofText?_text] at read
  exact (Option.some.inj read).symm

end Pointer

/-- The value that a text points to. -/
def resolve? (value : Json) (text : String) : Option Json :=
  (Pointer.ofText? text).bind value.at?

theorem resolve?_text (value : Json) (pointer : Pointer) :
    value.resolve? pointer.text = value.at? pointer := by
  rw [resolve?, Pointer.ofText?_text, Option.bind_some]

end Bindery.Json
