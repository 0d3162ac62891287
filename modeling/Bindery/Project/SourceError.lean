import Bindery.FileTree
import Bindery.Schema.TagTable
import Bindery.Text.Bytes

/-!
# Errors in what a project is made of

Why a settings file, a manual page or a type schema cannot be used.
-/

namespace Bindery.Project
set_option autoImplicit false

open Schema (TagError)
open Text (Span)

/-- A setting that makes no sense. -/
inductive SettingsFault where
  | emptySuffix
  | emptyClientFile
  | invalidClientName (name : String)
  | tag (error : TagError)
deriving Repr, DecidableEq, Inhabited

/-- The fault in words. -/
def SettingsFault.message : SettingsFault → String
  | .emptySuffix => "input.suffix must not be empty"
  | .emptyClientFile => "output.client_file must not be empty"
  | .invalidClientName name => "output.client_name '" ++ name ++ "' is not a valid class name"
  | .tag error => error.message

/-- The text that points to a fault in a settings file. -/
def SettingsFault.needle : SettingsFault → String
  | .emptySuffix => "suffix"
  | .emptyClientFile => "client_file"
  | .invalidClientName name => name
  | .tag (.genericTag name) => name
  | .tag (.conflict name ..) => name

/-- Why a source cannot be used. -/
inductive SourceError where
  | unreadable (path : Path) (fault : AccessFault)
  /-- The settings file is not well formed, or sets what is not there to be set. -/
  | settingsSyntax
  /-- A setting makes no sense; the span is a place in the settings file. -/
  | settings (fault : SettingsFault) (place : Option Span)
  | schemaSyntax
  | missingSchema (command : String) (path : Path)
  /-- Two pages belong to one command. -/
  | duplicateStem (stem first second : String)
  /-- A page belongs to a command without a name. -/
  | emptyStem (name : String)
deriving Repr, DecidableEq, Inhabited

namespace SourceError

/-- The error in words. -/
def message : SourceError → String
  | .unreadable path _ => "failed to read '" ++ path.text ++ "'"
  | .settingsSyntax => "failed to parse docbind.toml"
  | .settings fault _ => fault.message
  | .schemaSyntax => "failed to parse type schema"
  | .missingSchema command _ => "no type schema for command '" ++ command ++ "'"
  | .duplicateStem stem _ _ => "two documents map to the command file stem '" ++ stem ++ "'"
  | .emptyStem name => "document '" ++ name ++ "' has an empty command file stem"

/-- The identifying code of an error, if it has one. -/
def code : SourceError → Option String
  | .unreadable .. => none
  | .settingsSyntax => some "docbind::config_parse"
  | .settings .. => some "docbind::config"
  | .schemaSyntax => some "docbind::schema_parse"
  | .missingSchema .. => some "docbind::missing_schema"
  | .duplicateStem .. => some "docbind::duplicate_stem"
  | .emptyStem .. => some "docbind::empty_stem"

/-- What else helps to mend an error. -/
def help : SourceError → Option String
  | .missingSchema _ path => some ("expected the schema at '" ++ path.text ++ "'")
  | .duplicateStem _ first second =>
    some ("'" ++ first ++ "' and '" ++ second ++ "' differ only in the stripped prefix")
  | .emptyStem _ => some "nothing is left once the suffix and prefix are stripped"
  | _ => none

/-- What is said at the place where a schema stops being well formed. -/
def schemaLabel : String := "invalid JSON here"

end SourceError

end Bindery.Project
