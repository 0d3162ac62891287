import Bindery.Proofs.Synopsis.Lexing
import Bindery.Proofs.Synopsis.Reading
import Bindery.Proofs.Text.Lines

/-!
# Writing a synopsis

A descriptor is written as its name, its required parameters and its optional parameters, each of
these an item of its own. Items stand apart by one space, or by a newline where the line is wrapped.
A line that was written so is read as the descriptor, and nothing in it is irregular.
-/

namespace Bindery.Synopsis
set_option autoImplicit false

open Bindery.Text (Span)

/-! ## The written form -/

/-- A command name between its marks. -/
def writtenName (name : String) : List Char :=
  '*' :: '*' :: (escaped name.toList ++ ['*', '*'])

/-- A required parameter between its marks. -/
def writtenRequired (param : String) : List Char :=
  '*' :: (escaped param.toList ++ ['*'])

/-- An optional parameter in brackets. -/
def writtenOptional (param : String) : List Char :=
  '\\' :: '[' :: '*' :: (escaped param.toList ++ ['*', '\\', ']'])

/-- The items behind the name. -/
def Descriptor.parameterItems (d : Descriptor) : List (List Char) :=
  d.required.map writtenRequired ++ d.optional.map writtenOptional

/-- Items one after another. Between two of them stands a newline where the line breaks, and a space
where it does not; gaps are counted from zero. -/
def joinItems (breaks : Nat → Bool) (item : List Char) : List (List Char) → List Char
  | [] => item
  | next :: items =>
    item ++ (if breaks 0 then '\n' else ' ') :: joinItems (fun gap => breaks (gap + 1)) next items

/-- A descriptor as the lines of a synopsis. -/
def Descriptor.written (breaks : Nat → Bool) (d : Descriptor) : String :=
  String.ofList (joinItems breaks (writtenName d.name) d.parameterItems)

/-- A descriptor on one line. -/
def Descriptor.line (d : Descriptor) : List Char :=
  writtenName d.name ++ d.parameterItems.flatMap (' ' :: ·)

/-- A name that is read as it is written. -/
structure Writable (name : String) : Prop where
  nonempty : name ≠ ""
  trimmed : Text.trimmed name = name
  unmarked : Unmarked name.toList
  oneLine : '\n' ∉ name.toList

instance (name : String) : Decidable (Writable name) :=
  decidable_of_iff (name ≠ "" ∧ Text.trimmed name = name ∧ Unmarked name.toList ∧
      '\n' ∉ name.toList)
    ⟨fun ⟨nonempty, trimmed, unmarked, oneLine⟩ => ⟨nonempty, trimmed, unmarked, oneLine⟩,
      fun h => ⟨h.nonempty, h.trimmed, h.unmarked, h.oneLine⟩⟩

/-- A descriptor that is read as it is written. -/
structure Descriptor.Writable (d : Descriptor) : Prop where
  names : ∀ name ∈ d.name :: (d.required ++ d.optional), Synopsis.Writable name
  distinct : (d.required ++ d.optional).Nodup

instance (d : Descriptor) : Decidable d.Writable :=
  decidable_of_iff ((∀ name ∈ d.name :: (d.required ++ d.optional), Synopsis.Writable name) ∧
      (d.required ++ d.optional).Nodup)
    ⟨fun ⟨names, distinct⟩ => ⟨names, distinct⟩, fun h => ⟨h.names, h.distinct⟩⟩

section

variable {d : Descriptor} {P : String → Prop} {Q : List Char → Prop}

theorem Descriptor.forall_names (each : ∀ name ∈ d.name :: (d.required ++ d.optional), P name) :
    P d.name ∧ (∀ param ∈ d.required, P param) ∧ ∀ param ∈ d.optional, P param := by
  obtain ⟨name, params⟩ := List.forall_mem_cons.1 each
  exact ⟨name, List.forall_mem_append.1 params⟩

theorem Descriptor.forall_items (name : Q (writtenName d.name))
    (required : ∀ param ∈ d.required, Q (writtenRequired param))
    (optional : ∀ param ∈ d.optional, Q (writtenOptional param)) :
    ∀ item ∈ writtenName d.name :: d.parameterItems, Q item := by
  unfold Descriptor.parameterItems
  rw [List.forall_mem_cons, List.forall_mem_append, List.forall_mem_map, List.forall_mem_map]
  exact ⟨name, required, optional⟩

end

/-! ## Lexing -/

/-- What a written name is read as. -/
def nameKinds (name : String) : List TokenKind :=
  [.mark .name, .text name.toList, .mark .name]

/-- What a required parameter is read as, with the space in front of it. -/
def requiredKinds (param : String) : List TokenKind :=
  [.text [' '], .mark .parameter, .text param.toList, .mark .parameter]

/-- What an optional parameter is read as, with the space in front of it. -/
def optionalKinds (param : String) : List TokenKind :=
  [.text [' '], .mark .optionalOpen, .mark .parameter, .text param.toList, .mark .parameter,
    .mark .optionalClose]

section Lexing

variable {name : String} {rest : List Char}

namespace Writable

theorem chars_ne_nil (h : Writable name) : name.toList ≠ [] := fun none =>
  h.nonempty (String.toList_eq_nil_iff.1 none)

/-- No star follows the mark in front of a name. -/
theorem head_ne_star (h : Writable name) : (escaped name.toList ++ rest).head? ≠ some '*' := by
  cases chars : name.toList with
  | nil => exact absurd chars h.chars_ne_nil
  | cons c cs =>
    have unmarked := h.unmarked
    rw [chars, unmarked_cons] at unmarked
    by_cases backslash : c = '\\'
    · subst backslash
      simp [escaped]
    · simpa [escaped, backslash] using unmarked.1

theorem kinds_name (h : Writable name) :
    kindsOf (writtenName name ++ rest) = nameKinds name ++ kindsOf rest := by
  have line : writtenName name ++ rest =
      '*' :: '*' :: (escaped name.toList ++ '*' :: '*' :: rest) := by
    simp [writtenName]
  rw [line, kindsOf_name, kindsOf_escaped h.unmarked h.chars_ne_nil (ends_star _), kindsOf_name]
  rfl

theorem kinds_required (h : Writable name) (single : rest.head? ≠ some '*') :
    kindsOf (' ' :: writtenRequired name ++ rest) = requiredKinds name ++ kindsOf rest := by
  have line : ' ' :: writtenRequired name ++ rest =
      ' ' :: '*' :: (escaped name.toList ++ '*' :: rest) := by
    simp [writtenRequired]
  rw [line, kindsOf_space (ends_star _), kindsOf_star h.head_ne_star,
    kindsOf_escaped h.unmarked h.chars_ne_nil (ends_star _), kindsOf_star single]
  rfl

theorem kinds_optional (h : Writable name) :
    kindsOf (' ' :: writtenOptional name ++ rest) = optionalKinds name ++ kindsOf rest := by
  have line : ' ' :: writtenOptional name ++ rest =
      ' ' :: '\\' :: '[' :: '*' :: (escaped name.toList ++ '*' :: '\\' :: ']' :: rest) := by
    simp [writtenOptional]
  rw [line, kindsOf_space (ends_opening _), kindsOf_opening, kindsOf_star h.head_ne_star,
    kindsOf_escaped h.unmarked h.chars_ne_nil (ends_star _), kindsOf_star (by simp),
    kindsOf_closing]
  rfl

end Writable

theorem kinds_optionals {optional : List String} (writable : ∀ name ∈ optional, Writable name) :
    kindsOf (optional.flatMap (' ' :: writtenOptional ·)) = optional.flatMap optionalKinds := by
  induction optional with
  | nil => rfl
  | cons name optional ih =>
    have first := writable name List.mem_cons_self
    rw [List.flatMap_cons, first.kinds_optional, List.flatMap_cons,
      ih fun name mem => writable name (List.mem_cons_of_mem _ mem)]

theorem kinds_requireds {required : List String} (writable : ∀ name ∈ required, Writable name)
    (single : rest.head? ≠ some '*') :
    kindsOf (required.flatMap (' ' :: writtenRequired ·) ++ rest) =
      required.flatMap requiredKinds ++ kindsOf rest := by
  induction required with
  | nil => rfl
  | cons name required ih =>
    have first := writable name List.mem_cons_self
    have behind : (required.flatMap (' ' :: writtenRequired ·) ++ rest).head? ≠ some '*' := by
      cases required with
      | nil => exact single
      | cons next required => simp
    rw [List.flatMap_cons, List.append_assoc, first.kinds_required behind, List.flatMap_cons,
      List.append_assoc, ih fun name mem => writable name (List.mem_cons_of_mem _ mem)]

/-- The tokens of a descriptor on one line. -/
theorem Descriptor.Writable.kinds_line {d : Descriptor} (h : d.Writable) :
    kindsOf d.line =
      nameKinds d.name ++ (d.required.flatMap requiredKinds ++ d.optional.flatMap optionalKinds) := by
  obtain ⟨named, required, optional⟩ := Descriptor.forall_names h.names
  have single : (d.optional.flatMap (' ' :: writtenOptional ·)).head? ≠ some '*' := by
    cases d.optional with
    | nil => simp
    | cons => simp
  have line : d.line = writtenName d.name ++ (d.required.flatMap (' ' :: writtenRequired ·) ++
      d.optional.flatMap (' ' :: writtenOptional ·)) := by
    simp [Descriptor.line, Descriptor.parameterItems, List.flatMap_map]
  rw [line, named.kinds_name, kinds_requireds required single, kinds_optionals optional]

end Lexing

/-! ## Reading -/

section Reading

variable {name param command : String} {tokens more : List Token} {kind : TokenKind}
  {kinds : List TokenKind} {required optional : List String} {seen : Bool}

theorem token_of_kinds (h : tokens.map (·.kind) = kind :: kinds) :
    ∃ span more, tokens = ⟨kind, span⟩ :: more ∧ more.map (·.kind) = kinds := by
  obtain ⟨token, more, rfl, rfl, rest⟩ := List.map_eq_cons_iff.1 h
  exact ⟨token.span, more, rfl, rest⟩

theorem no_token_of_kinds (h : tokens.map (·.kind) = []) : tokens = [] :=
  List.map_eq_nil_iff.1 h

namespace Writable

theorem trim_toList (h : Writable name) : Text.trim name.toList = name.toList := by
  have trimmed := congrArg String.toList h.trimmed
  rwa [Text.trimmed, String.toList_ofList] at trimmed

theorem not_blank (h : Writable name) : Text.allBlank name.toList = false := by
  cases blank : Text.allBlank name.toList with
  | false => rfl
  | true =>
    have none : Text.trim name.toList = [] := by
      rw [Text.trim, Text.trimStart_eq_nil_iff.2 blank]
      rfl
    exact absurd (h.trim_toList.symm.trans none) h.chars_ne_nil

/-- A name does not end with a blank. -/
theorem last (h : Writable name) :
    ∃ front c, name.toList = front ++ [c] ∧ Text.isBlank c = false := by
  obtain ⟨front, c, chars⟩ : ∃ front c, name.toList = front ++ [c] :=
    ⟨_, _, (List.dropLast_concat_getLast h.chars_ne_nil).symm⟩
  refine ⟨front, c, chars, ?_⟩
  have reversed : Text.trimStart (Text.trimStart name.toList).reverse = c :: front.reverse := by
    rw [← List.reverse_reverse (Text.trimStart _)]
    have trimmed : (Text.trimStart (Text.trimStart name.toList).reverse).reverse = name.toList :=
      h.trim_toList
    rw [trimmed, chars]
    simp
  have kept := List.head?_dropWhile_not Text.isBlank (Text.trimStart name.toList).reverse
  unfold Text.trimStart at kept reversed
  rw [reversed] at kept
  exact kept

/-- A written name as a label, wherever its marks stand. -/
def label (h : Writable name) (opening span closing : Span) : Label :=
  ⟨opening, name.toList, span, closing, h.not_blank⟩

theorem label_name (h : Writable name) (opening span closing : Span) :
    (h.label opening span closing).name = name := by
  rw [Label.name, label, h.trim_toList, String.ofList_toList]

/-- The name is read first. -/
theorem reads_name (h : Writable name) (kinds : tokens.map (·.kind) = nameKinds name) :
    Reads .start tokens ⟨.body, name, [], false, [], [], []⟩ := by
  obtain ⟨opening, tokens, rfl, text⟩ := token_of_kinds kinds
  obtain ⟨span, tokens, rfl, mark⟩ := token_of_kinds text
  obtain ⟨closing, tokens, rfl, none⟩ := token_of_kinds mark
  rw [no_token_of_kinds none]
  have read := Synopsis.reads_name (p := .start) rfl (h.label opening span closing)
  rw [h.label_name] at read
  exact read

/-- A required parameter that is new is added, and nothing is irregular. -/
theorem reads_required (h : Writable param) (command : String) (fresh : param ∉ required)
    (kinds : tokens.map (·.kind) = requiredKinds param) :
    Reads ⟨.body, command, [], false, required, [], []⟩ tokens
      ⟨.body, command, [], false, required ++ [param], [], []⟩ := by
  obtain ⟨gap, tokens, rfl, star⟩ := token_of_kinds kinds
  obtain ⟨opening, tokens, rfl, text⟩ := token_of_kinds star
  obtain ⟨span, tokens, rfl, mark⟩ := token_of_kinds text
  obtain ⟨closing, tokens, rfl, none⟩ := token_of_kinds mark
  rw [no_token_of_kinds none]
  have read := reads_parameter (p := ⟨.body, command, [], false, required, [], []⟩) rfl
    (h.label opening span closing)
  rw [h.label_name, Progress.addParameter_outside rfl] at read
  simp only [Bool.false_eq_true, if_false, Progress.addRequired, if_neg fresh, List.not_mem_nil]
    at read
  exact Reads.cons rfl read

/-- An optional parameter that is new is added, and nothing is irregular. -/
theorem reads_optional (h : Writable param) (command : String) (seen : Bool)
    (unrequired : param ∉ required) (fresh : param ∉ optional)
    (kinds : tokens.map (·.kind) = optionalKinds param) :
    Reads ⟨.body, command, [], seen, required, optional, []⟩ tokens
      ⟨.body, command, [], true, required, optional ++ [param], []⟩ := by
  obtain ⟨gap, tokens, rfl, open_⟩ := token_of_kinds kinds
  obtain ⟨bracket, tokens, rfl, star⟩ := token_of_kinds open_
  obtain ⟨opening, tokens, rfl, text⟩ := token_of_kinds star
  obtain ⟨span, tokens, rfl, mark⟩ := token_of_kinds text
  obtain ⟨closing, tokens, rfl, close⟩ := token_of_kinds mark
  obtain ⟨closed, tokens, rfl, none⟩ := token_of_kinds close
  rw [no_token_of_kinds none]
  have read := reads_parameter
    (p := ⟨.body, command, [⟨bracket, false⟩], true, required, optional, []⟩) rfl
    (h.label opening span closing)
  rw [h.label_name, Progress.addParameter_first rfl rfl] at read
  simp only [Progress.addOptional, if_neg fresh, if_neg unrequired] at read
  exact Reads.cons rfl (Reads.cons rfl (Reads.append read (Reads.cons rfl (reads_nil.2 rfl))))

end Writable

theorem reads_requireds {params : List String} (command : String)
    (writable : ∀ param ∈ params, Writable param) (distinct : (required ++ params).Nodup)
    (kinds : tokens.map (·.kind) = params.flatMap requiredKinds) :
    Reads ⟨.body, command, [], false, required, [], []⟩ tokens
      ⟨.body, command, [], false, required ++ params, [], []⟩ := by
  induction params generalizing required tokens with
  | nil =>
    rw [no_token_of_kinds kinds, List.append_nil]
    exact reads_nil.2 rfl
  | cons param params ih =>
    rw [List.flatMap_cons] at kinds
    obtain ⟨first, more, rfl, here, behind⟩ := List.map_eq_append_iff.1 kinds
    have fresh : param ∉ required := fun mem =>
      (List.nodup_append.1 distinct).2.2 param mem param List.mem_cons_self rfl
    have read := (writable param List.mem_cons_self).reads_required command fresh here
    rw [← List.singleton_append, ← List.append_assoc] at distinct ⊢
    exact Reads.append read
      (ih (fun param mem => writable param (List.mem_cons_of_mem _ mem)) distinct behind)

theorem reads_optionals {params : List String} (command : String) (seen : Bool)
    (writable : ∀ param ∈ params, Writable param) (distinct : (required ++ (optional ++ params)).Nodup)
    (kinds : tokens.map (·.kind) = params.flatMap optionalKinds) :
    ∃ seen', Reads ⟨.body, command, [], seen, required, optional, []⟩ tokens
      ⟨.body, command, [], seen', required, optional ++ params, []⟩ := by
  induction params generalizing optional seen tokens with
  | nil =>
    rw [no_token_of_kinds kinds, List.append_nil]
    exact ⟨seen, reads_nil.2 rfl⟩
  | cons param params ih =>
    rw [List.flatMap_cons] at kinds
    obtain ⟨first, more, rfl, here, behind⟩ := List.map_eq_append_iff.1 kinds
    obtain ⟨_, among, apart⟩ := List.nodup_append.1 distinct
    have unrequired : param ∉ required := fun mem =>
      apart param mem param (List.mem_append_right _ List.mem_cons_self) rfl
    have fresh : param ∉ optional := fun mem =>
      (List.nodup_append.1 among).2.2 param mem param List.mem_cons_self rfl
    have read := (writable param List.mem_cons_self).reads_optional command seen
      unrequired fresh here
    rw [← List.singleton_append, ← List.append_assoc optional] at distinct ⊢
    obtain ⟨seen', reads⟩ :=
      ih true (fun param mem => writable param (List.mem_cons_of_mem _ mem)) distinct behind
    exact ⟨seen', Reads.append read reads⟩

/-- **A descriptor on one line is read as itself**, and nothing in the line is irregular. -/
theorem Descriptor.Writable.parse_line {d : Descriptor} (h : d.Writable) :
    parseChars d.line = .ok ⟨d, []⟩ := by
  have kinds := h.kinds_line
  rw [← kinds_tokenize] at kinds
  obtain ⟨first, more, tokens, named, behind⟩ := List.map_eq_append_iff.1 kinds
  obtain ⟨second, third, rfl, required, optional⟩ := List.map_eq_append_iff.1 behind
  obtain ⟨name, requireds, optionals⟩ := Descriptor.forall_names h.names
  have readName := name.reads_name named
  have readRequired : Reads ⟨.body, d.name, [], false, [], [], []⟩ second
      ⟨.body, d.name, [], false, d.required, [], []⟩ :=
    reads_requireds d.name requireds (List.nodup_append.1 h.distinct).1 required
  obtain ⟨seen, readOptional⟩ : ∃ seen, Reads ⟨.body, d.name, [], false, d.required, [], []⟩ third
      ⟨.body, d.name, [], seen, d.required, d.optional, []⟩ :=
    reads_optionals d.name false optionals h.distinct optional
  refine parseChars_eq_ok.2 ⟨⟨.body, d.name, [], seen, d.required, d.optional, []⟩, ?_, rfl, rfl, rfl⟩
  rw [tokens]
  exact Reads.append readName (Reads.append readRequired readOptional)

end Reading

/-! ## Wrapping -/

section Wrapping

variable {breaks : Nat → Bool} {item : List Char} {items : List (List Char)}

/-- Putting the lines of items together again gives the items on one line. -/
theorem intercalate_splitNewlines_joinItems (oneLine : ∀ i ∈ item :: items, '\n' ∉ i) :
    [' '].intercalate (Text.splitNewlines (joinItems breaks item items)) =
      item ++ items.flatMap (' ' :: ·) := by
  induction items generalizing breaks item with
  | nil =>
    rw [joinItems, Text.splitNewlines_of_not_mem (oneLine item List.mem_cons_self)]
    simp
  | cons next items ih =>
    have first := oneLine item List.mem_cons_self
    have ih := @ih (fun gap => breaks (gap + 1)) next
      fun i mem => oneLine i (List.mem_cons_of_mem _ mem)
    rw [joinItems, List.flatMap_cons, List.cons_append, ← ih]
    cases breaks 0
    · have joined : '\n' ∉ item ++ [' '] := by simpa using first
      obtain ⟨line, lines, split, whole⟩ := Text.splitNewlines_append joined
        (joinItems (fun gap => breaks (gap + 1)) next items)
      rw [List.append_assoc, List.singleton_append] at whole
      rw [if_neg Bool.false_ne_true, whole, split]
      cases lines <;> simp
    · rw [if_pos rfl, Text.splitNewlines_append_newline, Text.splitNewlines_of_not_mem first,
        List.singleton_append, List.intercalate_cons_of_ne_nil (Text.splitNewlines_ne_nil _),
        List.append_assoc, List.singleton_append]

/-- What holds of every item, and of an item in front of a line if it holds of both, holds of every
line. -/
theorem lines_joinItems {P : List Char → Prop} (oneLine : ∀ i ∈ item :: items, '\n' ∉ i)
    (each : ∀ i ∈ item :: items, P i) (join : ∀ i line, P i → P line → P (i ++ ' ' :: line)) :
    ∀ line ∈ Text.splitNewlines (joinItems breaks item items), P line := by
  induction items generalizing breaks item with
  | nil =>
    rw [joinItems, Text.splitNewlines_of_not_mem (oneLine item List.mem_cons_self)]
    intro line mem
    rw [List.mem_singleton.1 mem]
    exact each item List.mem_cons_self
  | cons next items ih =>
    have first := oneLine item List.mem_cons_self
    have here := each item List.mem_cons_self
    have ih := @ih (fun gap => breaks (gap + 1)) next
      (fun i mem => oneLine i (List.mem_cons_of_mem _ mem))
      (fun i mem => each i (List.mem_cons_of_mem _ mem))
    rw [joinItems]
    cases breaks 0
    · have joined : '\n' ∉ item ++ [' '] := by simpa using first
      obtain ⟨line, lines, split, whole⟩ := Text.splitNewlines_append joined
        (joinItems (fun gap => breaks (gap + 1)) next items)
      rw [List.append_assoc, List.singleton_append, List.append_assoc, List.singleton_append]
        at whole
      rw [if_neg Bool.false_ne_true, whole]
      intro other mem
      rcases List.mem_cons.1 mem with rfl | mem
      · exact join item line here (ih line (split ▸ List.mem_cons_self))
      · exact ih other (split ▸ List.mem_cons_of_mem _ mem)
    · rw [if_pos rfl, Text.splitNewlines_append_newline, Text.splitNewlines_of_not_mem first]
      intro other mem
      rcases List.mem_cons.1 mem with rfl | mem
      · exact here
      · exact ih other mem

theorem not_mem_escaped {name : List Char} {c : Char} (other : c ≠ '\\') (h : c ∉ name) :
    c ∉ escaped name := by
  intro mem
  obtain ⟨d, inside, mem⟩ := List.mem_flatMap.1 mem
  split at mem
  · simp [other] at mem
  · exact h (List.mem_singleton.1 mem ▸ inside)

/-- No item of a descriptor is cut by a newline of its own. -/
theorem Descriptor.Writable.items_oneLine {d : Descriptor} (h : d.Writable) :
    ∀ i ∈ writtenName d.name :: d.parameterItems, '\n' ∉ i := by
  have plain : ∀ name ∈ d.name :: (d.required ++ d.optional), '\n' ∉ escaped name.toList :=
    fun name mem => not_mem_escaped (by decide) (h.names name mem).oneLine
  obtain ⟨name, required, optional⟩ := Descriptor.forall_names plain
  refine Descriptor.forall_items ?_ (fun param mem => ?_) (fun param mem => ?_)
  · simpa [writtenName] using name
  · simpa [writtenRequired] using required param mem
  · simpa [writtenOptional] using optional param mem

/-- However a descriptor is wrapped, its lines are its one line. -/
theorem Descriptor.Writable.intercalate_lines {d : Descriptor} (h : d.Writable) :
    [' '].intercalate (Text.splitNewlines (d.written breaks).toList) = d.line := by
  rw [Descriptor.written, String.toList_ofList, intercalate_splitNewlines_joinItems h.items_oneLine]
  rfl

end Wrapping

end Bindery.Synopsis
