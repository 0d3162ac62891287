import Bindery.Binding.Diagnostic
import Bindery.Binding.Method
import Bindery.Manual.Corpus
import Bindery.Schema.Report
import Bindery.Synopsis.Parse

/-!
# From a page to a command

A page becomes a command if it has a description with a synopsis above it that can be read. Its
schema is brought into normal form on the way. Whatever is found is reported, and a page that
becomes no command is reported as an error.
-/

namespace Bindery.Binding
set_option autoImplicit false

open Manual (Locator Page Record)
open Schema (TagTable)

/-- A command that can be bound. -/
structure Command where
  stem : String
  /-- The first line of the page. -/
  heading : String
  /-- The synopsis as it stands in the page. -/
  synopsis : String
  descriptor : Synopsis.Descriptor
  description : List String
  /-- The type schema in normal form. -/
  schema : Json
  method : Method

/-- What a page gives: a command, unless it has none, and findings. -/
structure Analysis where
  command : Option Command
  diagnostics : List Diagnostic

/-- What is said of a tag whose values lose precision. -/
def lossyMessage : String :=
  "64-bit integer emitted as a double; values above 2^53 lose precision"

/-- The finding that a page has no description. -/
def noDescription (stem : String) : Diagnostic :=
  ⟨.error, "sections", "no DESCRIPTION marker; command skipped", some stem⟩

/-- The finding that a synopsis cannot be read. -/
def badSynopsis (stem synopsis : String) (e : Synopsis.Error) : Diagnostic :=
  ⟨.error, "synopsis", e.fault.message ++ " in `" ++ synopsis ++ "`; command skipped", some stem⟩

/-- The findings about a synopsis that was read. -/
def synopsisDiagnostics (stem : String) (outcome : Synopsis.Outcome) : List Diagnostic :=
  outcome.warnings.map (fun w => ⟨.warning, "synopsis", w.message, some stem⟩) ++
    (if outcome.descriptor.name = stem then []
    else [⟨.info, "synopsis", "synopsis names the command '" ++ outcome.descriptor.name ++ "'",
      some stem⟩])

/-- The findings about a schema that was brought into normal form. -/
def schemaDiagnostics (stem : String) (report : Schema.Report) : List Diagnostic :=
  report.pruned.map
      (fun place => ⟨.info, "normalize", "deprecated node removed",
        some (stem ++ "#" ++ place.text)⟩) ++
    report.lossy.map
      (fun place => ⟨.warning, "normalize", lossyMessage, some (stem ++ "#" ++ place.text)⟩)

/-- The command of a page with a given synopsis that was read. -/
def commandOf (record : Record) (page : Page) (synopsis : String) (descriptor : Synopsis.Descriptor)
    (schema : Json) : Command :=
  { stem := record.stem
    heading := page.heading
    synopsis := synopsis
    descriptor := descriptor
    description := page.prose
    schema := schema
    method := .ofDescriptor descriptor ("\n".intercalate page.prose) }

/-- What a page gives. -/
def analyze (table : TagTable) (locator : Locator) (record : Record) : Analysis :=
  let page := Page.ofText record.text
  match page.synopsis? locator with
  | none => ⟨none, [noDescription record.stem]⟩
  | some synopsis =>
    match Synopsis.parse synopsis with
    | .error e => ⟨none, [badSynopsis record.stem synopsis e]⟩
    | .ok outcome =>
      let normalized := Schema.normalize table record.schema
      ⟨some (commandOf record page synopsis outcome.descriptor normalized.schema),
        synopsisDiagnostics record.stem outcome ++
          schemaDiagnostics record.stem normalized.report⟩

end Bindery.Binding
