import Bindery.Synopsis.Descriptor
import Bindery.Synopsis.Token
import Bindery.Text.Blank

/-!
# Reading a synopsis

`**name** *required* [*optional*]`: a command name, then parameters, with those in brackets
optional. Of each bracket group only the first parameter counts, and groups may nest. A line that
does not follow the grammar is an `Error`; what can be tolerated is a `Warning`.

The reader is a machine over the tokens: `Progress.step` takes one token, `Progress.finish` asks
whether the line may end here.
-/

namespace Bindery.Synopsis
set_option autoImplicit false

open Bindery.Text (Span)

/-- Why a line is not a synopsis. -/
inductive Fault where
  | missingName
  | unterminatedName
  | emptyName
  | unterminatedParameter
  | emptyParameter
  | unterminatedOptional
  | unexpectedToken
deriving Repr, DecidableEq, Inhabited

/-- The fault in words. -/
def Fault.message : Fault → String
  | .missingName => "synopsis has no command name"
  | .unterminatedName => "command name is not closed with '**'"
  | .emptyName => "command name is empty"
  | .unterminatedParameter => "parameter name is not closed with '*'"
  | .emptyParameter => "parameter name is empty"
  | .unterminatedOptional => "optional group is not closed with ']'"
  | .unexpectedToken => "unexpected token in synopsis"

/-- A fault and where in the line it is. -/
structure Error where
  fault : Fault
  span : Span
deriving Repr, DecidableEq, Inhabited

/-- The form a synopsis is expected to have. -/
def Error.help : String := "expected `**name** *required* [*optional*]`"

/-- The identifying code of synopsis errors. -/
def Error.code : String := "docbind::synopsis"

/-- Irregularities that leave a usable synopsis. -/
inductive Irregularity where
  /-- Text that is neither a name nor a parameter. -/
  | strayText
  /-- A second or later parameter of one group; it is ignored. -/
  | extraOptionalParameter
  | emptyOptionalGroup
  | requiredAfterOptional
  /-- A parameter declared before in the same way; it is ignored. -/
  | duplicateParameter
  /-- A parameter declared both required and optional; it counts as required. -/
  | overlappingParameter
deriving Repr, DecidableEq, Inhabited

/-- The irregularity in words. -/
def Irregularity.message : Irregularity → String
  | .strayText => "stray text"
  | .extraOptionalParameter => "extra parameter in optional group ignored"
  | .emptyOptionalGroup => "empty optional group"
  | .requiredAfterOptional => "required parameter after optional group"
  | .duplicateParameter => "duplicate parameter ignored"
  | .overlappingParameter => "parameter is both required and optional"

/-- An irregularity, where in the line it is, and the text there. -/
structure Warning where
  irregularity : Irregularity
  span : Span
  text : String
deriving Repr, DecidableEq, Inhabited

/-- The warning in words. -/
def Warning.message (w : Warning) : String :=
  w.irregularity.message ++ " '" ++ w.text ++ "' at " ++ toString w.span.start ++ ".." ++
    toString w.span.stop

/-- An open bracket group: its opening bracket, and whether it has its parameter. -/
structure Group where
  opening : Span
  hasParameter : Bool
deriving Repr, DecidableEq

/-- Where in the grammar the reader stands. -/
inductive Place where
  | beforeName
  /-- Inside a command name: its opening mark and the text so far. -/
  | inName (opening : Span) (text : List Char)
  | body
  /-- Inside a parameter: its opening mark and the text so far. -/
  | inParameter (opening : Span) (text : List Char)
deriving Repr, DecidableEq

/-- What the reader has gathered. -/
structure Progress where
  place : Place
  name : String
  /-- The open groups, innermost first. -/
  groups : List Group
  /-- Whether a group was ever opened. -/
  seenOptional : Bool
  required : List String
  optional : List String
  /-- The irregularities so far with their places, in the order they were met. -/
  findings : List (Irregularity × Span)
deriving Repr, DecidableEq

namespace Progress

/-- Before the first token. -/
def start : Progress :=
  ⟨.beforeName, "", [], false, [], [], []⟩

/-- Notes an irregularity. -/
def warn (p : Progress) (kind : Irregularity) (span : Span) : Progress :=
  { p with findings := p.findings ++ [(kind, span)] }

/-- Notes text outside all marks unless it is blank. -/
def stray (p : Progress) (content : List Char) (span : Span) : Progress :=
  if Text.allBlank content then p else p.warn .strayText span

/-- Declares a required parameter. It takes the place of an optional one of its name. -/
def addRequired (p : Progress) (param : String) (span : Span) : Progress :=
  if param ∈ p.required then p.warn .duplicateParameter span
  else if param ∈ p.optional then
    { p.warn .overlappingParameter span with
      required := p.required ++ [param], optional := p.optional.erase param }
  else { p with required := p.required ++ [param] }

/-- Declares an optional parameter. -/
def addOptional (p : Progress) (param : String) (span : Span) : Progress :=
  if param ∈ p.optional then p.warn .duplicateParameter span
  else if param ∈ p.required then p.warn .overlappingParameter span
  else { p with optional := p.optional ++ [param] }

/-- Takes a complete parameter: required outside all groups, else the parameter of the innermost
group if that has none yet. -/
def addParameter (p : Progress) (param : String) (span : Span) : Progress :=
  match p.groups with
  | [] =>
    (if p.seenOptional then p.warn .requiredAfterOptional span else p).addRequired param span
  | group :: groups =>
    if group.hasParameter then p.warn .extraOptionalParameter span
    else { p with groups := { group with hasParameter := true } :: groups }.addOptional param span

/-- Takes one token. -/
def step (p : Progress) (token : Token) : Except Error Progress :=
  match p.place, token.kind with
  | .beforeName, .text content => .ok (p.stray content token.span)
  | .beforeName, .mark .name => .ok { p with place := .inName token.span [] }
  | .beforeName, .mark _ => .error ⟨.missingName, token.span⟩
  | .inName opening text, .text content =>
    .ok { p with place := .inName opening (text ++ content) }
  | .inName opening text, .mark .name =>
    if Text.allBlank text then .error ⟨.emptyName, opening.through token.span⟩
    else .ok { p with place := .body, name := String.ofList (Text.trim text) }
  | .inName _ _, .mark _ => .error ⟨.unexpectedToken, token.span⟩
  | .body, .text content => .ok (p.stray content token.span)
  | .body, .mark .name => .error ⟨.unexpectedToken, token.span⟩
  | .body, .mark .parameter => .ok { p with place := .inParameter token.span [] }
  | .body, .mark .optionalOpen =>
    .ok { p with seenOptional := true, groups := ⟨token.span, false⟩ :: p.groups }
  | .body, .mark .optionalClose =>
    match p.groups with
    | [] => .error ⟨.unexpectedToken, token.span⟩
    | group :: groups =>
      let closed := { p with groups := groups }
      .ok (if group.hasParameter then closed
        else closed.warn .emptyOptionalGroup (group.opening.through token.span))
  | .inParameter opening text, .text content =>
    .ok { p with place := .inParameter opening (text ++ content) }
  | .inParameter opening text, .mark .parameter =>
    let span := opening.through token.span
    if Text.allBlank text then .error ⟨.emptyParameter, span⟩
    else .ok ({ p with place := .body }.addParameter (String.ofList (Text.trim text)) span)
  | .inParameter _ _, .mark _ => .error ⟨.unexpectedToken, token.span⟩

/-- Takes the end of a line of `length` bytes. -/
def finish (p : Progress) (length : Nat) : Except Error Progress :=
  match p.place with
  | .beforeName => .error ⟨.missingName, ⟨0, length⟩⟩
  | .inName opening _ => .error ⟨.unterminatedName, opening⟩
  | .inParameter opening _ => .error ⟨.unterminatedParameter, opening⟩
  | .body =>
    match p.groups with
    | [] => .ok p
    | group :: _ => .error ⟨.unterminatedOptional, group.opening⟩

/-- The descriptor gathered. -/
def descriptor (p : Progress) : Descriptor :=
  ⟨p.name, p.required, p.optional⟩

end Progress

/-- A synopsis that was read: its descriptor and what was tolerated. -/
structure Outcome where
  descriptor : Descriptor
  warnings : List Warning
deriving Repr, DecidableEq, Inhabited

/-- The warning about a finding in a line. -/
def Warning.ofFinding (line : List Char) (finding : Irregularity × Span) : Warning :=
  ⟨finding.1, finding.2, String.ofList ((Text.slice? line finding.2).getD [])⟩

/-- Reads a synopsis from the characters of its line. -/
def parseChars (line : List Char) : Except Error Outcome := do
  let read ← (tokenize line).foldlM Progress.step Progress.start
  let done ← read.finish (Text.byteLength line)
  return ⟨done.descriptor, done.findings.map (Warning.ofFinding line)⟩

/-- Reads a synopsis line. -/
def parse (line : String) : Except Error Outcome :=
  parseChars line.toList

end Bindery.Synopsis
