import Bindery.Binding.Analysis
import Bindery.Output.GeneratedFile
import Bindery.TypeScript.SourceFile

/-!
# The file of a command

A comment that quotes the manual page, the type of the command's parameters and the type of its
result. Synopses carry no types, so every parameter is taken for a string.
-/

namespace Bindery.TypeScript
set_option autoImplicit false

open Binding (Command)
open Output (GeneratedFile)

/-- The first line of a generated file. -/
def generatedHeader : String := "// Code generated by docbind. DO NOT EDIT."

/-- The type of a parameter. -/
def guessedType : TypeExpr := .raw "/* GUESSED */ string"

namespace CommandFile

/-- What the comment quotes: the heading and the synopsis of the page, unless blank. -/
def sourceText (command : Command) : String :=
  "\n\n".intercalate ([command.heading, command.synopsis].filter (!Text.isBlankText ·))

/-- The comment that quotes the page, over several lines even if one would do. -/
def sourceComment (command : Command) : Declaration :=
  .code ((Code.Builder.new .standard).docComment (sourceText command ++ "\n")).text

/-- The fields of the type of the parameters. -/
def requestFields (descriptor : Synopsis.Descriptor) : List Field :=
  descriptor.parameters.map fun p => (⟨p.1, !p.2, none⟩, guessedType)

/-- The type of the parameters. -/
def request (command : Command) : Declaration :=
  .interface command.method.request
    (if command.method.doc = "" then none else some command.method.doc)
    (requestFields command.descriptor)

/-- The text of the file, given the text of the result's type. -/
def text (command : Command) (response : String) : String :=
  ((((SourceFile.empty.withHeader generatedHeader).add (sourceComment command)).add
    (request command)).add (.code response)).render

/-- The file in a directory. -/
def file (dir : Path) (command : Command) (response : String) : GeneratedFile :=
  ⟨dir.join ⟨command.stem ++ ".ts"⟩, text command response, .always, some generatedHeader⟩

end CommandFile

end Bindery.TypeScript
