import Bindery.Proofs.Binding.Findings
import Bindery.Proofs.Code.Indentation
import Bindery.Proofs.Json.Compact
import Bindery.Proofs.Text.Words
import Bindery.Proofs.TypeScript.Alike
import Bindery.Proofs.TypeScript.Making
import Bindery.Proofs.TypeScript.Unions
import Bindery.Proofs.TypeScript.WrittenForms
import Bindery.TypeScript.CommandFile

/-!
# Code is taken over as it is

A command's file takes the comment that quotes the page and the declaration of the response over line
by line. Read line by line and written again, a text loses carriage returns in front of newlines, and
gets a newline behind its last line. A declaration has neither: names and literals hold no newline
once they are quoted, and every line ends in a character of its own.
-/

namespace Bindery.TypeScript
set_option autoImplicit false

open Code (Fragment linesOfAll_line linesOf_render render render_append render_blank render_eq
  render_line)
open Code.Fragment (codeOfAll codeOfAll_append codeOfAll_ofDoc)
open Text (IsLine closeBrace ended openBrace)

/-! ## Types on one line -/

theorem newline_not_mem_intercalate {between : String} {parts : List String}
    (apart : '\n' ∉ between.toList) (each : ∀ part ∈ parts, '\n' ∉ part.toList) :
    '\n' ∉ (between.intercalate parts).toList := by
  have others : ∀ c ∈ (between.intercalate parts).toList, c ≠ '\n' := by
    rw [String.toList_intercalate]
    refine Text.forall_mem_intercalate (fun c mem same => apart (same ▸ mem)) ?_
    rw [List.forall_mem_map]
    exact fun part mem c here same => each part mem (same ▸ here)
  exact fun mem => others _ mem rfl

theorem newline_not_mem_propertyKey (name : String) : '\n' ∉ (propertyKey name).toList := by
  unfold propertyKey
  split
  · next identifier =>
    unfold isIdentifier at identifier
    intro mem
    split at identifier
    · cases identifier
    · next c cs text =>
      rw [Bool.and_eq_true, List.all_eq_true] at identifier
      rw [text, List.mem_cons] at mem
      rcases mem with rfl | mem
      · exact absurd identifier.1 (by decide)
      · exact absurd (identifier.2 _ mem) (by decide)
  · exact fun mem => absurd (Json.shown_of_mem_quote _ mem) (by decide)

theorem newline_not_mem_key (head : FieldHead) : '\n' ∉ head.key.toList := by
  have key := newline_not_mem_propertyKey head.name
  unfold FieldHead.key
  split <;> simp [key]

theorem newline_not_mem_label (head : FieldHead) : '\n' ∉ (head.key ++ ": ").toList := by
  simp [newline_not_mem_key]

/-- Types in which only the known words are written as they are. Nothing is asked of literals, which
are quoted whatever their value is. -/
inductive Worded : TypeExpr → Prop
  | raw {text : String} (known : text ∈ typeWords) : Worded (.raw text)
  | literal (value : Json) : Worded (.literal value)
  | array {element : TypeExpr} (inner : Worded element) : Worded (.array element)
  | union {members : List TypeExpr} (inner : ∀ type ∈ members, Worded type) :
      Worded (.union members)
  | object {fields : List Field} (inner : ∀ field ∈ fields, Worded field.2) : Worded (.object fields)
  | record {value : TypeExpr} (inner : Worded value) : Worded (.record value)

theorem Worded.members {type member : TypeExpr} (worded : Worded type)
    (mem : member ∈ type.members) : Worded member := by
  cases type with
  | union members =>
    cases worded with
    | union inner => exact inner member mem
  | _ =>
    obtain rfl := List.mem_singleton.1 mem
    exact worded

theorem worded_unionOf {types : List TypeExpr} (each : ∀ type ∈ types, Worded type) :
    Worded (.unionOf types) := by
  have brought : ∀ member ∈ types.flatMap TypeExpr.members, Worded member := by
    intro member mem
    obtain ⟨type, here, inside⟩ := List.mem_flatMap.1 mem
    exact (each type here).members inside
  rcases TypeExpr.unionOf_cases types with single | ⟨several, whole, -, among, -⟩
  · exact brought _ single
  · rw [whole]
    exact .union fun type mem => brought type (among mem)

theorem kept_worded : Kept (fun _ => True) Worded where
  item _ _ _ := trivial
  field _ _ _ := trivial
  raw := .raw
  literal {value} _ := .literal value
  array := .array
  unionOf := worded_unionOf
  object := .object
  record := .record

theorem Worded.newline_not_mem_inline {type : TypeExpr} (worded : Worded type) :
    '\n' ∉ type.inline.toList := by
  induction worded with
  | raw known =>
    have words : ∀ text ∈ typeWords, '\n' ∉ text.toList := by decide
    exact words _ known
  | literal value => exact fun mem => absurd (Json.shown_of_mem_compact value _ mem) (by decide)
  | array inner ih =>
    rw [TypeExpr.inline_array]
    split <;> simp [ih]
  | @union members inner ih =>
    cases members with
    | nil => decide
    | cons first rest =>
      have parts : ∀ part ∈ TypeExpr.inlineAll (first :: rest), '\n' ∉ part.toList := by
        rw [TypeExpr.inlineAll_eq, List.forall_mem_map]
        exact ih
      exact newline_not_mem_intercalate (by decide) parts
  | @object fields inner ih =>
    cases fields with
    | nil => decide
    | cons first rest =>
      have parts : ∀ part ∈ TypeExpr.signatures (first :: rest), '\n' ∉ part.toList := by
        rw [TypeExpr.signatures_eq, List.forall_mem_map]
        intro field mem
        simp [Field.signature, newline_not_mem_key, ih field mem]
      have text : '\n' ∉ ("; ".intercalate (TypeExpr.signatures (first :: rest))).toList :=
        newline_not_mem_intercalate (by decide) parts
      rw [TypeExpr.inline_object (List.cons_ne_nil _ _)]
      simp [text, -String.toList_intercalate]
  | record inner ih => simp [TypeExpr.inline_record, ih]

/-! ## Types in block form -/

theorem isLine_line {before inner after : String} (front : '\n' ∉ before.toList)
    (middle : '\n' ∉ inner.toList) (back : IsLine after) (some : after ≠ "") :
    ∀ text ∈ (Fragment.line (before ++ inner ++ after)).code, IsLine text := by
  intro text mem
  rw [List.mem_singleton.1 mem]
  exact .prepend (by simp [front, middle]) back some

theorem isLine_code_fieldFragments {fields : List Field}
    (each : ∀ field ∈ fields, ∀ text ∈ (field.2.fragment (field.1.key ++ ": ") ";").code,
      IsLine text) : ∀ text ∈ codeOfAll (TypeExpr.fieldFragments fields), IsLine text := by
  induction fields with
  | nil => nofun
  | cons field rest ih =>
    obtain ⟨here, each⟩ := List.forall_mem_cons.1 each
    rw [TypeExpr.fragment] at here
    rw [TypeExpr.fieldFragments, codeOfAll_append, codeOfAll_append, codeOfAll_ofDoc,
      List.nil_append, List.forall_mem_append, codeOfAll, codeOfAll, List.append_nil]
    exact ⟨here, ih each⟩

/-- **Every line of a type is a line.** -/
theorem Worded.isLine_code {type : TypeExpr} (worded : Worded type) {before after : String}
    (front : '\n' ∉ before.toList) (back : IsLine after) (some : after ≠ "") :
    ∀ text ∈ (type.fragment before after).code, IsLine text := by
  have whole : '\n' ∉ type.inline.toList := worded.newline_not_mem_inline
  induction worded generalizing before after with
  | raw | literal | union | record => exact isLine_line front whole back some
  | @array element inner ih =>
    -- The block form is that of the element, with the brackets in front of what comes behind it.
    cases found : element.block? before ("[]" ++ after) with
    | none =>
      rw [TypeExpr.fragment, TypeExpr.block?, found]
      exact isLine_line front whole back some
    | some block =>
      have back' : IsLine ("[]" ++ after) := back.prepend (by decide) some
      have text := ih front back' (by simp) inner.newline_not_mem_inline
      rw [TypeExpr.fragment, found, Option.getD_some] at text
      rwa [TypeExpr.fragment, TypeExpr.block?, found, Option.getD_some]
  | @object fields inner ih =>
    cases fields with
    | nil => exact isLine_line front whole back some
    | cons first rest =>
      have each : ∀ field ∈ first :: rest,
          ∀ text ∈ (field.2.fragment (field.1.key ++ ": ") ";").code, IsLine text := by
        intro field mem
        exact ih field mem (newline_not_mem_label _) (by decide) (by decide)
          (inner field mem).newline_not_mem_inline
      rw [TypeExpr.fragment, TypeExpr.block?, Option.getD_some, Fragment.code, List.forall_mem_cons,
        List.forall_mem_append]
      refine ⟨.prepend front (by decide) (by decide), isLine_code_fieldFragments each, ?_⟩
      exact List.forall_mem_singleton.2 (.prepend (by decide) back some)

theorem isLine_code_fields {fields : List Field} (inner : ∀ field ∈ fields, Worded field.2) :
    ∀ text ∈ codeOfAll (TypeExpr.fieldFragments fields), IsLine text :=
  isLine_code_fieldFragments fun field mem =>
    (inner field mem).isLine_code (newline_not_mem_label _) (by decide) (by decide)

/-! ## Declarations -/

theorem isLine_code_declare {name : String} (plain : '\n' ∉ name.toList) (doc : Option String)
    {type : TypeExpr} (worded : Worded type) :
    ∀ text ∈ codeOfAll (declare name doc type).toFragments, IsLine text := by
  unfold declare
  split
  · next fields =>
    cases worded with
    | object inner =>
    cases fields with
    | nil =>
      rw [Declaration.toFragments, codeOfAll_append, codeOfAll_ofDoc, List.nil_append]
      have front : '\n' ∉ ("export interface " ++ name).toList := by simp [plain]
      exact List.forall_mem_singleton.2 (.prepend front (by decide) (by decide))
    | cons field rest =>
      have front : '\n' ∉ ("export interface " ++ name ++ " ").toList := by simp [plain]
      have header : IsLine ("export interface " ++ name ++ " " ++ openBrace) :=
        .prepend front (by decide) (by decide)
      rw [Declaration.toFragments, codeOfAll_append, codeOfAll_ofDoc, List.nil_append, codeOfAll,
        codeOfAll, Fragment.code, List.append_nil, List.forall_mem_cons, List.forall_mem_append]
      · exact ⟨header, isLine_code_fields inner, List.forall_mem_singleton.2 (by decide)⟩
      · nofun
  · have front : '\n' ∉ ("export type " ++ name ++ " = ").toList := by simp [plain]
    rw [Declaration.toFragments, codeOfAll_append, codeOfAll_ofDoc, List.nil_append, codeOfAll,
      codeOfAll, List.append_nil]
    exact worded.isLine_code front (by decide) (by decide)

theorem newline_not_mem_responseName (command : String) : '\n' ∉ (responseName command).toList := by
  unfold responseName Text.pascalCase
  simp only [String.toList_append, String.toList_ofList, List.mem_append, not_or]
  refine ⟨fun mem => ?_, by decide⟩
  rcases Text.mem_flatMap_capitalize (fun _ part => part) mem with outside | letter | plain
  · exact absurd outside (by decide)
  · exact absurd letter (by decide)
  · exact absurd plain (by decide)

/-- Code whose lines are whole is written again as it is. -/
theorem render_code {fs : List Fragment} (whole : ∀ text ∈ codeOfAll fs, IsLine text) :
    (Declaration.code (render .standard fs)).render = render .standard fs := by
  rw [Declaration.render, Declaration.toFragments, linesOf_render whole, render_eq, linesOfAll_line,
    ← render_eq]

theorem render_compiled {command : String} {schema : Json} {response : String}
    (compiled : compile (responseName command) schema = .ok response) :
    (Declaration.code response).render = response := by
  unfold compile at compiled
  split at compiled
  · next type typed =>
    cases compiled
    have worded : Worded type := kept_worded.of_typeOfNode trivial typed
    exact render_code (isLine_code_declare (newline_not_mem_responseName command) _ worded)
  · cases compiled

/-! ## The file of a command -/

namespace CommandFile

/-- The comment that quotes the page, before it is taken over line by line. -/
def quotation (command : Binding.Command) : String :=
  ((Code.Builder.new .standard).docComment (sourceText command ++ "\n")).text

theorem render_quotation (command : Binding.Command) :
    (Declaration.code (quotation command)).render = quotation command := by
  have alone : quotation command = render .standard [.docComment (sourceText command ++ "\n")] :=
    rfl
  rw [alone]
  exact render_code nofun

theorem text_eq (command : Binding.Command) (response : String) :
    text command response = generatedHeader ++ "\n" ++ "\n" ++ (sourceComment command).render ++
      "\n" ++ (request command).render ++ "\n" ++ (Declaration.code response).render := by
  have sections : text command response = render .standard (SourceFile.joinSections
      [[.line generatedHeader], (sourceComment command).toFragments, (request command).toFragments,
        (Declaration.code response).toFragments]) := by
    simp [text, SourceFile.render, SourceFile.renderWith, SourceFile.sections, SourceFile.add,
      SourceFile.withHeader, SourceFile.empty]
  rw [sections]
  simp only [SourceFile.joinSections, render_append, render_line, render_blank, Declaration.render,
    String.append_assoc]

end CommandFile

/-- **Code is taken over as it is.** The file of every command that is found and has a result type
is the header, the comment that quotes the page, the type of the parameters and the type of the
result, with a blank line between any two. The comment and the result's type stand in it to the
letter: cut into lines and written again, they are what they were. -/
theorem commandFile_verbatim (table : Schema.TagTable) (locator : Manual.Locator)
    (record : Manual.Record) (command : Binding.Command) (response : String)
    (analyzed : (Binding.analyze table locator record).command = some command)
    (compiled : compile command.method.response command.schema = .ok response) :
    CommandFile.text command response =
        generatedHeader ++ "\n" ++ "\n" ++ CommandFile.quotation command ++ "\n" ++
          (CommandFile.request command).render ++ "\n" ++ response ∧
      (Declaration.code (CommandFile.quotation command)).render = CommandFile.quotation command ∧
      (Declaration.code response).render = response := by
  have comment_kept : (CommandFile.sourceComment command).render = CommandFile.quotation command :=
    CommandFile.render_quotation command
  have response_kept : (Declaration.code response).render = response := by
    obtain ⟨synopsis, outcome, -, -, rfl⟩ := Binding.command_of_analyze analyzed
    exact render_compiled compiled
  refine ⟨?_, comment_kept, response_kept⟩
  rw [CommandFile.text_eq, comment_kept, response_kept]

/-- A page with carriage returns in front of its newlines, whose schema has a carriage return and a
newline in the name of a property, in a literal and in a description. -/
def returningPage : Manual.Record :=
  { stem := "ping"
    text := "ping\r\n\r\n**ping** *id*\r\n\r\nDESCRIPTION\r\n\r\nAnswers.\r\nTwice.\r\n"
    schema := .object [("type", .string "object"),
      ("properties", .object [("at\r\n", .object [("const", .string "now\r\n"),
        ("description", .string "when\r\nit came\r")])])]
    path := ⟨"ping.md"⟩ }

theorem commandFile_verbatim_returningPage :
    ∃ command response,
      (Binding.analyze .builtin Manual.synopsisAbove returningPage).command = some command ∧
      compile command.method.response command.schema = .ok response ∧
      response = ended ["export interface PingResponse " ++ openBrace, "  /**", "   * when",
        "   * it came", "   */", "  \"at\\r\\n\"?: \"now\\r\\n\";", closeBrace] ∧
      (Declaration.code response).render = response ∧
      CommandFile.text command response = generatedHeader ++ "\n" ++ "\n" ++
        ended ["/**", " * ping", " *", " * **ping** *id*", " */"] ++ "\n" ++
        ended ["/**", " * Answers.", " * Twice.", " */", "export interface PingRequest " ++ openBrace,
          "  id: /* GUESSED */ string;", closeBrace] ++ "\n" ++ response := by
  have found : ((Binding.analyze .builtin Manual.synopsisAbove returningPage).command.map
      fun command => (CommandFile.quotation command, (CommandFile.request command).render,
        (compile command.method.response command.schema).toOption)) =
      some (ended ["/**", " * ping", " *", " * **ping** *id*", " */"],
        ended ["/**", " * Answers.", " * Twice.", " */", "export interface PingRequest " ++ openBrace,
          "  id: /* GUESSED */ string;", closeBrace],
        some (ended ["export interface PingResponse " ++ openBrace, "  /**", "   * when",
          "   * it came", "   */", "  \"at\\r\\n\"?: \"now\\r\\n\";", closeBrace])) := by
    decide +kernel
  obtain ⟨command, analyzed, facts⟩ := Option.map_eq_some_iff.1 found
  obtain ⟨comment, facts⟩ := Prod.mk.inj facts
  obtain ⟨request, written⟩ := Prod.mk.inj facts
  cases compiled : compile command.method.response command.schema with
  | error e =>
    rw [compiled] at written
    cases written
  | ok response =>
    obtain ⟨whole, -, kept⟩ := commandFile_verbatim _ _ _ command response analyzed compiled
    rw [compiled, Except.toOption, Option.some.injEq] at written
    rw [comment, request] at whole
    refine ⟨command, response, analyzed, compiled, written, kept, ?_⟩
    simpa only [String.append_assoc] using whole

end Bindery.TypeScript
