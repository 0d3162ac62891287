import Bindery.Proofs.TypeScript.Inhabitants

/-!
# The two written forms of a type agree

A fragment can be put on one line: its doc comments are left out, and a block becomes its header,
what is left of its body and its closing line with blanks between them, without the semicolon that
ends the body. Put on one line, the block form of a type is its one-line form.
-/

namespace Bindery
set_option autoImplicit false

namespace Code.Fragment

/-- A text without the semicolon at its end. -/
def withoutSemicolon (s : String) : String :=
  if s.toList.getLast? = some ';' then String.ofList s.toList.dropLast else s

/-- Texts, the last of them without the semicolon at its end. -/
def endUnmarked : List String → List String
  | [] => []
  | [last] => [withoutSemicolon last]
  | first :: rest => first :: endUnmarked rest

mutual

/-- A fragment on one line, if more is left of it than doc comments and blank lines. -/
def flat? : Fragment → Option String
  | .line text => some text
  | .blank => none
  | .docComment _ => none
  | .block header body close =>
    some (" ".intercalate (header :: (endUnmarked (flatAll body) ++ close.toList)))
termination_by structural fragment => fragment

/-- What is left of fragments, each on one line. -/
def flatAll : List Fragment → List String
  | [] => []
  | fragment :: rest => (flat? fragment).toList ++ flatAll rest
termination_by structural fragments => fragments

end

theorem flatAll_append (fs gs : List Fragment) : flatAll (fs ++ gs) = flatAll fs ++ flatAll gs := by
  induction fs with
  | nil => rfl
  | cons f fs ih => rw [List.cons_append, flatAll, flatAll, ih, List.append_assoc]

theorem flatAll_ofDoc (doc : Option String) : flatAll (ofDoc doc) = [] := by
  cases doc <;> rfl

theorem withoutSemicolon_append (s : String) : withoutSemicolon (s ++ ";") = s := by
  simp [withoutSemicolon]

theorem endUnmarked_ne_nil {texts : List String} (some : texts ≠ []) : endUnmarked texts ≠ [] := by
  cases texts with
  | nil => contradiction
  | cons first rest => cases rest <;> simp [endUnmarked]

/-- Texts that each end in a semicolon are separated by semicolons. -/
theorem intercalate_endUnmarked (texts : List String) :
    " ".intercalate (endUnmarked (texts.map (· ++ ";"))) = "; ".intercalate texts := by
  induction texts with
  | nil => rfl
  | cons first rest ih =>
    cases rest with
    | nil => simp [endUnmarked, withoutSemicolon_append]
    | cons second rest =>
      have later : endUnmarked ((second :: rest).map (· ++ ";")) ≠ [] :=
        endUnmarked_ne_nil (by simp)
      calc " ".intercalate (endUnmarked ((first :: second :: rest).map (· ++ ";")))
          = " ".intercalate
              ((first ++ ";") :: endUnmarked ((second :: rest).map (· ++ ";"))) := rfl
        _ = first ++ ";" ++ " " ++ "; ".intercalate (second :: rest) := by
          rw [String.intercalate_cons_of_ne_nil later, ih]
        _ = "; ".intercalate (first :: second :: rest) := by
          rw [String.intercalate_cons_cons, String.append_assoc, String.append_assoc]
          simp [← String.append_assoc]

/-- A block of texts that each end in a semicolon, on one line. -/
theorem flat?_block {header close : String} {body : List Fragment} {texts : List String}
    (some : texts ≠ []) (left : flatAll body = texts.map (· ++ ";")) :
    flat? (.block header body (.some close)) =
      .some (header ++ " " ++ "; ".intercalate texts ++ " " ++ close) := by
  have inner : endUnmarked (texts.map (· ++ ";")) ≠ [] := endUnmarked_ne_nil (by simpa using some)
  rw [flat?, left, Option.toList_some, String.intercalate_cons_of_ne_nil (by simp),
    String.intercalate_append_of_ne_nil inner (by simp), intercalate_endUnmarked,
    String.intercalate_singleton]
  simp only [String.append_assoc]

end Code.Fragment

namespace TypeScript

open Code (Fragment)
open Code.Fragment
open Text (closeBrace openBrace)

namespace TypeExpr

theorem signatures_eq (fields : List Field) : signatures fields = fields.map Field.signature := by
  induction fields with
  | nil => rfl
  | cons field rest ih => rw [signatures, ih, List.map_cons, Field.signature]

/-- What is written of fields on lines of their own is their signatures. -/
theorem flatAll_fieldFragments {fields : List Field}
    (each : ∀ field ∈ fields, ∀ before after : String,
      flat? (field.2.fragment before after) = some (before ++ field.2.inline ++ after)) :
    flatAll (fieldFragments fields) = (signatures fields).map (· ++ ";") := by
  induction fields with
  | nil => rfl
  | cons field rest ih =>
    obtain ⟨here, each⟩ := List.forall_mem_cons.1 each
    have line : flat? (field.2.fragment (field.1.key ++ ": ") ";") =
        some (field.1.key ++ ": " ++ field.2.inline ++ ";") := here _ _
    rw [fieldFragments, flatAll_append, flatAll_append, flatAll_ofDoc, ih each, signatures,
      List.map_cons]
    rw [fragment] at line
    rw [flatAll, line]
    rfl

theorem inline_object {fields : List Field} (some : fields ≠ []) :
    inline (.object fields) = Text.inBraces ("; ".intercalate (signatures fields)) := by
  cases fields with
  | nil => contradiction
  | cons field rest => rfl

theorem inline_record (value : TypeExpr) :
    inline (.record value) = "Record<string, " ++ inline value ++ ">" :=
  rfl

theorem inline_union (first second : TypeExpr) (rest : List TypeExpr) :
    inline (.union (first :: second :: rest)) =
      " | ".intercalate (inlineAll (first :: second :: rest)) :=
  rfl

theorem inline_array (element : TypeExpr) : inline (.array element) =
    if element.isWideUnion then "(" ++ inline element ++ ")[]" else inline element ++ "[]" :=
  rfl

theorem not_isWideUnion_of_block? {type : TypeExpr} {before after : String} {block : Fragment}
    (found : type.block? before after = some block) : type.isWideUnion = false := by
  cases type with
  | union members => cases found
  | _ => rfl

end TypeExpr

/-- **The block form of a type, put on one line, is its one-line form.** -/
theorem flat_fragment_eq_inline (type : TypeExpr) (before after : String) :
    flat? (type.fragment before after) = some (before ++ type.inline ++ after) := by
  induction type using TypeExpr.induct generalizing before after with
  | array element ih =>
    cases found : element.block? before ("[]" ++ after) with
    | none =>
      -- Without a block form both forms are the one line.
      rw [TypeExpr.fragment, TypeExpr.block?, found]
      rfl
    | some block =>
      have inner := ih before ("[]" ++ after)
      rw [TypeExpr.fragment, found, Option.getD_some] at inner
      rw [TypeExpr.fragment, TypeExpr.block?, found, Option.getD_some, inner,
        TypeExpr.inline_array, TypeExpr.not_isWideUnion_of_block? found]
      simp [String.append_assoc]
  | object fields ih =>
    cases fields with
    | nil => rfl
    | cons field rest =>
      have signatures : TypeExpr.signatures (field :: rest) ≠ [] := by
        simp [TypeExpr.signatures_eq]
      calc flat? (.block (before ++ openBrace) (TypeExpr.fieldFragments (field :: rest))
            (some (closeBrace ++ after)))
          = some (before ++ openBrace ++ " " ++
              "; ".intercalate (TypeExpr.signatures (field :: rest)) ++ " " ++
                (closeBrace ++ after)) :=
          flat?_block signatures (TypeExpr.flatAll_fieldFragments ih)
        _ = some (before ++ TypeExpr.inline (.object (field :: rest)) ++ after) := by
          rw [TypeExpr.inline_object (List.cons_ne_nil _ _)]
          simp [← String.toList_inj]
  | _ => rfl

end TypeScript

end Bindery
