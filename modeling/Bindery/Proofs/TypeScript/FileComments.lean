import Bindery.Proofs.Code.Quotations
import Bindery.Proofs.TypeScript.Embedding
import Bindery.TypeScript.ClientFile

/-!
# The comments of a generated file

The texts of a page stand in the generated files as doc comments, each of which ends where it should.
Without them, the file of a command is the header, the type of the parameters and the type of the
result, and the file of a client is that of a client whose methods have no descriptions.
-/

namespace Bindery.TypeScript
set_option autoImplicit false

open Text (closeBrace ended openBrace)
open Code (Builder ClosedOnce Fragment Quotes StandsClosed)
open Code.Fragment (commentsOfAll commentsOfAll_append commentsOfAll_line commentsOfAll_ofDoc
  uncommentedAll uncommentedAll_append uncommentedAll_line uncommentedAll_ofDoc)

/-! ## Types -/

namespace TypeExpr

mutual

/-- The texts in the comments of a type in block form. -/
def docs : TypeExpr → List String
  | .array element => docs element
  | .object fields => docsOfFields fields
  | _ => []
termination_by structural type => type

/-- The texts in the comments of fields and of their types. -/
def docsOfFields : List (FieldHead × TypeExpr) → List String
  | [] => []
  | (head, type) :: rest => head.doc.toList ++ docs type ++ docsOfFields rest
termination_by structural fields => fields

end

mutual

/-- A type without the texts of its fields. -/
def undocumented : TypeExpr → TypeExpr
  | .raw text => .raw text
  | .literal value => .literal value
  | .array element => .array (undocumented element)
  | .union members => .union (undocumentedAll members)
  | .object fields => .object (undocumentedFields fields)
  | .record value => .record (undocumented value)
termination_by structural type => type

/-- Types without the texts of their fields. -/
def undocumentedAll : List TypeExpr → List TypeExpr
  | [] => []
  | type :: rest => undocumented type :: undocumentedAll rest
termination_by structural types => types

/-- Fields without their texts. -/
def undocumentedFields : List (FieldHead × TypeExpr) → List (FieldHead × TypeExpr)
  | [] => []
  | (head, type) :: rest =>
    ({ head with doc := none }, undocumented type) :: undocumentedFields rest
termination_by structural fields => fields

end

theorem isWideUnion_undocumented (type : TypeExpr) :
    type.undocumented.isWideUnion = type.isWideUnion := by
  match type with
  | .union [] | .union [_] | .union (_ :: _ :: _) => rfl
  | .raw _ | .literal _ | .array _ | .object _ | .record _ => rfl

mutual

/-- On one line a type shows none of the texts of its fields. -/
theorem inline_undocumented : (type : TypeExpr) → type.undocumented.inline = type.inline
  | .raw _ | .literal _ => rfl
  | .array element => by
    rw [undocumented, inline, inline, isWideUnion_undocumented, inline_undocumented element]
  | .union [] => rfl
  | .union (first :: rest) => by
    have members := inlineAll_undocumented (first :: rest)
    rw [undocumentedAll] at members
    rw [undocumented, undocumentedAll, inline, inline, members]
    · nofun
    · nofun
  | .object [] => rfl
  | .object (field :: rest) => by
    have fields := signatures_undocumented (field :: rest)
    rw [undocumentedFields] at fields
    rw [undocumented, undocumentedFields, inline, inline, fields]
    · nofun
    · nofun
  | .record value => by rw [undocumented, inline, inline, inline_undocumented value]
termination_by structural type => type

theorem inlineAll_undocumented : (types : List TypeExpr) →
    inlineAll (undocumentedAll types) = inlineAll types
  | [] => rfl
  | type :: rest => by
    rw [undocumentedAll, inlineAll, inlineAll, inline_undocumented type,
      inlineAll_undocumented rest]
termination_by structural types => types

theorem signatures_undocumented : (fields : List (FieldHead × TypeExpr)) →
    signatures (undocumentedFields fields) = signatures fields
  | [] => rfl
  | (head, type) :: rest => by
    rw [undocumentedFields, signatures, signatures, inline_undocumented type,
      signatures_undocumented rest]
    rfl
termination_by structural fields => fields

end

mutual

theorem comments_block? (before after line : String) : (type : TypeExpr) →
    ((block? before after type).getD (.line line)).comments = docs type
  | .array element => by
    rw [block?, docs]
    exact comments_block? before ("[]" ++ after) line element
  | .object [] => rfl
  | .object (field :: rest) => by
    rw [block?, docs, Option.getD_some, Fragment.comments]
    exact comments_fieldFragments (field :: rest)
  | .raw _ | .literal _ | .union _ | .record _ => rfl
termination_by structural type => type

theorem comments_fieldFragments : (fields : List (FieldHead × TypeExpr)) →
    commentsOfAll (fieldFragments fields) = docsOfFields fields
  | [] => rfl
  | (head, type) :: rest => by
    rw [fieldFragments, docsOfFields, commentsOfAll_append, commentsOfAll_append,
      commentsOfAll_ofDoc, comments_fieldFragments rest, commentsOfAll,
      comments_block? _ _ _ type, commentsOfAll, List.append_nil]
termination_by structural fields => fields

end

mutual

/-- Without its comments, a type in block form is that of the type without texts. -/
theorem uncommented_block? (before after line : String) : (type : TypeExpr) →
    ((block? before after type).getD (.line line)).uncommented =
      [(block? before after type.undocumented).getD (.line line)]
  | .array element => by
    rw [block?, undocumented, block?]
    exact uncommented_block? before ("[]" ++ after) line element
  | .object [] => rfl
  | .object (field :: rest) => by
    have fields := uncommented_fieldFragments (field :: rest)
    rw [undocumentedFields] at fields
    rw [block?, undocumented, undocumentedFields, block?, Option.getD_some, Option.getD_some,
      Fragment.uncommented, fields]
  | .raw _ | .literal _ | .union _ | .record _ => rfl
termination_by structural type => type

theorem uncommented_fieldFragments : (fields : List (FieldHead × TypeExpr)) →
    uncommentedAll (fieldFragments fields) = fieldFragments (undocumentedFields fields)
  | [] => rfl
  | (head, type) :: rest => by
    rw [fieldFragments, undocumentedFields, fieldFragments, uncommentedAll_append,
      uncommentedAll_append, uncommentedAll_ofDoc, uncommented_fieldFragments rest, uncommentedAll,
      uncommented_block? _ _ _ type, uncommentedAll, List.append_nil, inline_undocumented]
    rfl
termination_by structural fields => fields

end

end TypeExpr

/-! ## Declarations -/

theorem comments_interface (name : String) (doc : Option String) (fields : List Field) :
    commentsOfAll (Declaration.interface name doc fields).toFragments =
      doc.toList ++ TypeExpr.docsOfFields fields := by
  cases fields with
  | nil =>
    rw [Declaration.toFragments, commentsOfAll_append, commentsOfAll_ofDoc]
    rfl
  | cons field rest =>
    rw [Declaration.toFragments, commentsOfAll_append, commentsOfAll_ofDoc, commentsOfAll,
      Fragment.comments, TypeExpr.comments_fieldFragments, commentsOfAll, List.append_nil]
    exact List.cons_ne_nil _ _

theorem uncommented_interface (name : String) (doc : Option String) (fields : List Field) :
    uncommentedAll (Declaration.interface name doc fields).toFragments =
      (Declaration.interface name none (TypeExpr.undocumentedFields fields)).toFragments := by
  cases fields with
  | nil =>
    rw [Declaration.toFragments, uncommentedAll_append, uncommentedAll_ofDoc]
    rfl
  | cons field rest =>
    have fields := TypeExpr.uncommented_fieldFragments (field :: rest)
    rw [TypeExpr.undocumentedFields] at fields
    rw [Declaration.toFragments, uncommentedAll_append, uncommentedAll_ofDoc, uncommentedAll,
      Fragment.uncommented, fields]
    · rfl
    · exact List.cons_ne_nil _ _

/-- The comments of a declared type are its own and those of its fields. -/
theorem comments_declare (name : String) (doc : Option String) (type : TypeExpr) :
    commentsOfAll (declare name doc type).toFragments = doc.toList ++ type.docs := by
  unfold declare
  split
  · exact comments_interface name doc _
  · next other =>
    rw [Declaration.toFragments, commentsOfAll_append, commentsOfAll_ofDoc, commentsOfAll,
      TypeExpr.fragment, TypeExpr.comments_block?, commentsOfAll, List.append_nil]

/-- Without its comments, a declared type is one without texts. -/
theorem uncommented_declare (name : String) (doc : Option String) (type : TypeExpr) :
    uncommentedAll (declare name doc type).toFragments =
      (declare name none type.undocumented).toFragments := by
  have aliased : uncommentedAll (Declaration.typeAlias name doc type).toFragments =
      (Declaration.typeAlias name none type.undocumented).toFragments := by
    rw [Declaration.toFragments, Declaration.toFragments, uncommentedAll_append,
      uncommentedAll_ofDoc, uncommentedAll, TypeExpr.fragment, TypeExpr.fragment,
      TypeExpr.uncommented_block?, uncommentedAll, TypeExpr.inline_undocumented]
    rfl
  cases type with
  | object fields => exact uncommented_interface name doc fields
  | _ => exact aliased

theorem quotes_declare (name : String) (doc : Option String) (type : TypeExpr) :
    Quotes .standard (declare name doc type).render (declare name none type.undocumented).render
      (doc.toList ++ type.docs) := by
  rw [← comments_declare name doc type, Declaration.render, Declaration.render,
    ← uncommented_declare name doc type]
  exact Fragment.quotes_render .standard _

/-! ## The file of a command -/

namespace CommandFile

/-- The texts in the comments in front of the response: the heading and the synopsis of a page, unless
blank, and its description, unless empty. -/
def placed (heading synopsis description : String) : List String :=
  ("\n\n".intercalate ([heading, synopsis].filter (!Text.isBlankText ·)) ++ "\n") ::
    if description = "" then [] else [description]

/-- The file of a command without its comments. -/
def uncommented (descriptor : Synopsis.Descriptor) (type : TypeExpr) : String :=
  ended [generatedHeader, "", ""] ++
    (Declaration.interface (requestName descriptor.name) none (requestFields descriptor)).render ++
    "\n" ++ (declare (responseName descriptor.name) none type.undocumented).render

theorem docsOfFields_requestFields (descriptor : Synopsis.Descriptor) :
    TypeExpr.docsOfFields (requestFields descriptor) = [] := by
  unfold requestFields
  induction descriptor.parameters with
  | nil => rfl
  | cons p ps ih => rw [List.map_cons, TypeExpr.docsOfFields, ih]; rfl

theorem undocumentedFields_requestFields (descriptor : Synopsis.Descriptor) :
    TypeExpr.undocumentedFields (requestFields descriptor) = requestFields descriptor := by
  unfold requestFields
  induction descriptor.parameters with
  | nil => rfl
  | cons p ps ih => rw [List.map_cons, TypeExpr.undocumentedFields, ih]; rfl

theorem quotes_request (command : Binding.Command) :
    Quotes .standard (request command).render
      (Declaration.interface command.method.request none (requestFields command.descriptor)).render
      (if command.method.doc = "" then [] else [command.method.doc]) := by
  have whole := Fragment.quotes_render .standard (request command).toFragments
  rw [request, uncommented_interface, undocumentedFields_requestFields, comments_interface,
    docsOfFields_requestFields, List.append_nil, apply_ite Option.toList] at whole
  exact whole

theorem quotes_text (command : Binding.Command) {response code : String} {texts : List String}
    (kept : (Declaration.code response).render = response)
    (quotes : Quotes .standard response code texts) :
    Quotes .standard (text command response)
      (ended [generatedHeader, "", ""] ++ (Declaration.interface command.method.request none
        (requestFields command.descriptor)).render ++ "\n" ++ code)
      (placed command.heading command.synopsis command.method.doc ++ texts) := by
  have gap : Quotes .standard (ended [""]) (ended [""]) [] := .lines _
  have header : Quotes .standard (ended [generatedHeader, ""]) (ended [generatedHeader, ""]) [] :=
    .lines _
  have source : Quotes .standard (quotation command) "" [sourceText command ++ "\n"] :=
    Fragment.quotes_render .standard [.docComment (sourceText command ++ "\n")]
  have whole := (((header.append source).append gap).append (quotes_request command)).append
    (gap.append quotes)
  have comment_kept : (sourceComment command).render = quotation command := render_quotation command
  rw [text_eq, comment_kept, kept]
  simpa [placed, sourceText, String.append_assoc] using whole

end CommandFile

/-! ## The file of a client -/

/-- A method without its description. -/
def Method.undocumented (m : Method) : Method :=
  { m with doc := none }

/-- A class whose methods have no descriptions. -/
def Class.undocumented (c : Class) : Class :=
  { c with methods := c.methods.map Method.undocumented }

/-- A client whose methods have no descriptions. -/
def Client.undocumented (client : Client) : Client :=
  { client with entries := client.entries.map fun e => (e.1, { e.2 with doc := "" }) }

theorem comments_method (m : Method) : commentsOfAll m.fragments = m.doc.toList := by
  have body : commentsOfAll (m.body.map .line) = [] := commentsOfAll_line m.body
  simp [Method.fragments, commentsOfAll_append, commentsOfAll_ofDoc, commentsOfAll,
    Fragment.comments, body]

theorem uncommented_method (m : Method) :
    uncommentedAll m.fragments = m.undocumented.fragments := by
  have body : uncommentedAll (m.body.map .line) = m.body.map .line := uncommentedAll_line m.body
  simp only [Method.fragments, uncommentedAll_append, uncommentedAll_ofDoc, uncommentedAll,
    Fragment.uncommented, body]
  rfl

theorem comments_body (c : Class) :
    commentsOfAll c.body = c.methods.flatMap (·.doc.toList) := by
  have further (start : List Fragment) (methods : List Method) : commentsOfAll
      (methods.foldl (fun body m => body ++ (if body.isEmpty then [] else [.blank]) ++ m.fragments)
        start) = commentsOfAll start ++ methods.flatMap (·.doc.toList) := by
    induction methods generalizing start with
    | nil => simp
    | cons m methods ih =>
      have gap : commentsOfAll (if start.isEmpty then [] else [.blank]) = [] := by
        split <;> rfl
      rw [List.foldl_cons, ih, commentsOfAll_append, commentsOfAll_append, gap, comments_method,
        List.append_nil, List.append_assoc]
      rfl
  have first : commentsOfAll c.constructorFragments = [] := by
    unfold Class.constructorFragments
    split <;> rfl
  rw [Class.body, further, first, List.nil_append]

theorem uncommented_body (c : Class) : uncommentedAll c.body = c.undocumented.body := by
  -- Whether a blank line is put between two methods must not depend on comments in front of it.
  have further (start : List Fragment) (methods : List Method)
      (shown : (uncommentedAll start).isEmpty = start.isEmpty) : uncommentedAll
      (methods.foldl (fun body m => body ++ (if body.isEmpty then [] else [.blank]) ++ m.fragments)
        start) =
      (methods.map Method.undocumented).foldl
        (fun body m => body ++ (if body.isEmpty then [] else [.blank]) ++ m.fragments)
        (uncommentedAll start) := by
    induction methods generalizing start with
    | nil => rfl
    | cons m methods ih =>
      have gap : uncommentedAll (if start.isEmpty then [] else [.blank]) =
          if start.isEmpty then [] else [.blank] := by
        split <;> rfl
      have some : start ++ (if start.isEmpty then [] else [.blank]) ++ m.fragments ≠ [] := by
        simp [Method.fragments]
      have left : uncommentedAll (start ++ (if start.isEmpty then [] else [.blank]) ++
          m.fragments) ≠ [] := by
        simp [uncommentedAll_append, Method.fragments, uncommentedAll, Fragment.uncommented]
      rw [List.foldl_cons, ih _ (by rw [List.isEmpty_eq_false_iff.2 some,
          List.isEmpty_eq_false_iff.2 left]), uncommentedAll_append, uncommentedAll_append, gap,
        uncommented_method, List.map_cons, List.foldl_cons, shown]
  have first : uncommentedAll c.constructorFragments = c.constructorFragments := by
    unfold Class.constructorFragments
    split <;> rfl
  rw [Class.body, further _ _ (by rw [first]), first]
  rfl

namespace SourceFile

/-- A file whose declarations have no comments. -/
def uncommented (file : SourceFile) : SourceFile :=
  { file with body := file.body.map uncommentedAll }

theorem commentsOfAll_joinSections (sections : List (List Fragment)) :
    commentsOfAll (joinSections sections) = sections.flatMap commentsOfAll := by
  induction sections with
  | nil => rfl
  | cons first rest ih =>
    cases rest with
    | nil => simp [joinSections]
    | cons second rest =>
      rw [joinSections, commentsOfAll_append, commentsOfAll, ih]
      · rfl
      · exact List.cons_ne_nil _ _

theorem uncommentedAll_joinSections (sections : List (List Fragment)) :
    uncommentedAll (joinSections sections) = joinSections (sections.map uncommentedAll) := by
  induction sections with
  | nil => rfl
  | cons first rest ih =>
    cases rest with
    | nil => rfl
    | cons second rest =>
      rw [joinSections, uncommentedAll_append, uncommentedAll, ih]
      · rfl
      · exact List.cons_ne_nil _ _

theorem commentsOfAll_imports (group : List Import) :
    commentsOfAll (group.map fun i => .line i.statement) = [] := by
  rw [← commentsOfAll_line (group.map Import.statement), List.map_map]
  rfl

theorem uncommentedAll_imports (group : List Import) :
    uncommentedAll (group.map fun i => .line i.statement) =
      group.map fun i => .line i.statement := by
  have lines := uncommentedAll_line (group.map Import.statement)
  rwa [List.map_map] at lines

/-- The comments of a file are those of its declarations. -/
theorem quotes_render (file : SourceFile) :
    Quotes .standard file.render file.uncommented.render (file.body.flatMap commentsOfAll) := by
  have sections : file.uncommented.sections = file.sections.map uncommentedAll := by
    simp [SourceFile.sections, uncommented, Function.comp_def, uncommentedAll_imports,
      uncommentedAll, Fragment.uncommented]
  have header : (file.header.toList.map fun text => [Fragment.line text]).flatMap
      commentsOfAll = [] := by
    cases file.header <;> rfl
  have imports : (file.importGroups.map fun group =>
      group.map fun i => Fragment.line i.statement).flatMap commentsOfAll = [] := by
    simp [List.flatMap_eq_nil_iff, commentsOfAll_imports]
  have texts : file.sections.flatMap commentsOfAll = file.body.flatMap commentsOfAll := by
    rw [SourceFile.sections, List.flatMap_append, List.flatMap_append, header, imports]
    rfl
  have whole := Fragment.quotes_render .standard (joinSections file.sections)
  rwa [uncommentedAll_joinSections, commentsOfAll_joinSections, texts, ← sections] at whole

/-- A declaration behind imports brings its comments. -/
theorem quotes_add {file : SourceFile} (bare : file.body = []) {declaration code : Declaration}
    (left : uncommentedAll declaration.toFragments = code.toFragments) :
    Quotes .standard (file.add declaration).render (file.add code).render
      (commentsOfAll declaration.toFragments) := by
  have whole := (file.add declaration).quotes_render
  have rest : (file.add declaration).uncommented = file.add code := by
    simp [uncommented, add, bare, left]
  have texts : (file.add declaration).body = [declaration.toFragments] := by simp [add, bare]
  rwa [rest, texts, List.flatMap_singleton] at whole

theorem body_addImportGroup (file : SourceFile) (group : List Import) :
    (file.addImportGroup group).body = file.body := by
  unfold addImportGroup
  split <;> rfl

end SourceFile

namespace Client

theorem classDefinition_undocumented (client : Client) :
    client.undocumented.classDefinition = client.classDefinition.undocumented := by
  have each (method : Binding.Method) : commandMethod { method with doc := "" } =
      (commandMethod method).undocumented := rfl
  have call : callMethod.undocumented = callMethod := by simp only [Method.undocumented, callMethod]
  unfold classDefinition undocumented Class.undocumented
  simp only [List.map_cons, List.map_map, Function.comp_def, each, call]

theorem quotes_text (client : Client) :
    Quotes .standard client.text client.undocumented.text
      (client.entries.filterMap fun e => Method.docOf e.2.doc) := by
  have types : client.undocumented.entries.map typeImport = client.entries.map typeImport :=
    List.map_map
  have texts : commentsOfAll client.classDefinition.body =
      client.entries.filterMap fun e => Method.docOf e.2.doc := by
    rw [comments_body, classDefinition, List.flatMap_cons, List.flatMap_map,
      List.filterMap_eq_flatMap_toList]
    rfl
  have code : uncommentedAll (Declaration.classDefinition client.classDefinition).toFragments =
      (Declaration.classDefinition client.undocumented.classDefinition).toFragments := by
    rw [classDefinition_undocumented, Declaration.toFragments, uncommentedAll,
      Fragment.uncommented, uncommented_body]
    rfl
  have whole := SourceFile.quotes_add (SourceFile.body_addImportGroup
    ((SourceFile.empty.withHeader generatedHeader).addImport netImport)
    (client.entries.map typeImport)) code
  rw [Declaration.toFragments, commentsOfAll, Fragment.comments, texts, commentsOfAll,
    List.append_nil] at whole
  unfold text
  rwa [types]

end Client

/-! ## No text ends its comment -/

/-- **No text ends its comment early.** What a doc comment adds to a text starts with `/**` behind
the margin of its level and holds `*/` once, in front of its final newline. The file of every command
that is found and has a result type is the header, the type of the parameters and the type of the
result, and put into them such a comment for the heading and synopsis, one for the description, one
for the schema and one for each field of its type that has a text. The file of a client is that of
the client without descriptions, and put into it such a comment for each that is not blank. So every
one of these texts stands in its file as a comment that is closed once. -/
theorem comments_closed_once :
    (∀ (b : Builder) (text : String), ∃ added,
      b.docComment text = { b with text := b.text ++ added } ∧ ClosedOnce b.margin added) ∧
    (∀ (table : Schema.TagTable) (locator : Manual.Locator) (record : Manual.Record)
      (command : Binding.Command) (response : String),
      (Binding.analyze table locator record).command = some command →
      compile command.method.response command.schema = .ok response →
      let page := Manual.Page.ofText record.text
      let schema := (Schema.normalize table record.schema).schema
      let file := CommandFile.text command response
      ∃ synopsis outcome type, page.synopsis? locator = some synopsis ∧
        Synopsis.parse synopsis = .ok outcome ∧ typeOfSchema schema = .ok type ∧
        let texts := CommandFile.placed page.heading synopsis ("\n".intercalate page.prose) ++
          ((description schema).toList ++ type.docs)
        Quotes .standard file (CommandFile.uncommented outcome.descriptor type) texts ∧
          ∀ text ∈ texts, StandsClosed .standard file text) ∧
    ∀ client : Client,
      let texts := client.entries.filterMap fun e => Method.docOf e.2.doc
      Quotes .standard client.text client.undocumented.text texts ∧
        ∀ text ∈ texts, StandsClosed .standard client.text text := by
  refine ⟨Code.docComment_closedOnce, ?_, fun client =>
    ⟨client.quotes_text, client.quotes_text.standsClosed⟩⟩
  intro table locator record command response analyzed compiled page schema file
  obtain ⟨synopsis, outcome, located, parsed, rfl⟩ := Binding.command_of_analyze analyzed
  have kept : (Declaration.code response).render = response := render_compiled compiled
  unfold compile at compiled
  split at compiled
  · next type typed =>
    cases compiled
    have quotes := CommandFile.quotes_text
      (Binding.commandOf record page synopsis outcome.descriptor schema) kept
      (quotes_declare _ _ type)
    exact ⟨synopsis, outcome, type, located, parsed, typed, quotes, quotes.standsClosed⟩
  · cases compiled

/-- A page whose heading, description and schema all try to end their comments. -/
def endingPage : Manual.Record :=
  { stem := "ping"
    text := "ping */\n\n**ping** *id*\n\nDESCRIPTION\n\nends *\n/ or */\n"
    schema := .object [("description", .string "*/"), ("type", .string "string")]
    path := ⟨"ping.md"⟩ }

theorem comments_closed_once_endingPage :
    ∃ command response,
      (Binding.analyze .builtin Manual.synopsisAbove endingPage).command = some command ∧
      compile command.method.response command.schema = .ok response ∧
      let file := CommandFile.text command response
      let texts := ["ping */\n\n**ping** *id*\n", "ends *\n/ or *\\/", "*/"]
      Quotes .standard file (ended [generatedHeader, "", "",
        "export interface PingRequest " ++ openBrace, "  id: /* GUESSED */ string;", closeBrace, "",
        "export type PingResponse = string;"]) texts ∧
      ∀ text ∈ texts, StandsClosed .standard file text := by
  let page := Manual.Page.ofText endingPage.text
  let schema := (Schema.normalize .builtin endingPage.schema).schema
  have found : ((Binding.analyze .builtin Manual.synopsisAbove endingPage).command.map
      fun command => (compile command.method.response command.schema).toOption.isSome) =
      some true := by
    decide +kernel
  have read : ((page.synopsis? Manual.synopsisAbove).bind fun synopsis =>
      (Synopsis.parse synopsis).toOption.bind fun outcome =>
        (typeOfSchema schema).toOption.map fun type =>
          (CommandFile.placed page.heading synopsis ("\n".intercalate page.prose) ++
            ((description schema).toList ++ type.docs),
            CommandFile.uncommented outcome.descriptor type)) =
      some (["ping */\n\n**ping** *id*\n", "ends *\n/ or *\\/", "*/"],
        ended [generatedHeader, "", "", "export interface PingRequest " ++ openBrace,
          "  id: /* GUESSED */ string;", closeBrace, "", "export type PingResponse = string;"]) := by
    decide +kernel
  obtain ⟨command, analyzed, typed⟩ := Option.map_eq_some_iff.1 found
  cases compiled : compile command.method.response command.schema with
  | error error =>
    rw [compiled] at typed
    cases typed
  | ok response =>
    obtain ⟨synopsis, outcome, type, located, parsed, typed, quotes, closed⟩ :=
      comments_closed_once.2.1 _ _ _ command response analyzed compiled
    rw [located, Option.bind_some, parsed, typed] at read
    obtain ⟨texts, code⟩ := Prod.mk.inj (Option.some.inj read)
    rw [texts] at quotes closed
    rw [code] at quotes
    exact ⟨command, response, analyzed, compiled, quotes, closed⟩

end Bindery.TypeScript
