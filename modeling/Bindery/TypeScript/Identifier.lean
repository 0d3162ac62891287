import Bindery.Json.Writer
import Bindery.Text.Words

/-!
# Names in TypeScript

How command and parameter names are spelled in the generated code: types in Pascal case with a
suffix, methods in camel case, property keys bare where the language allows it and quoted elsewhere.
-/

namespace Bindery.TypeScript
set_option autoImplicit false

/-- An ASCII letter, an underscore or a dollar sign. -/
def isIdentifierStart (c : Char) : Bool :=
  c.isAlpha || c == '_' || c == '$'

/-- A character that may follow the first of an identifier. -/
def isIdentifierPart (c : Char) : Bool :=
  c.isAlphanum || c == '_' || c == '$'

/-- Whether a name can be written without quotes. -/
def isIdentifier (name : String) : Bool :=
  match name.toList with
  | [] => false
  | c :: cs => isIdentifierStart c && cs.all isIdentifierPart

/-- A property key, in quotes unless it is an identifier. -/
def propertyKey (name : String) : String :=
  if isIdentifier name then name else Json.quote name

/-- Names that a class gives a meaning of its own. -/
def reservedNames : List String := ["constructor"]

/-- Whether a method may not have this name. -/
def isReserved (name : String) : Bool :=
  name ∈ reservedNames

/-- A name that a method may have: a reserved one gets an underscore. -/
def safeName (name : String) : String :=
  if isReserved name then name ++ "_" else name

/-- The method for a command. -/
def methodName (command : String) : String :=
  safeName (Text.camelCase command)

/-- The type of a command's parameters. -/
def requestName (command : String) : String :=
  Text.pascalCase command ++ "Request"

/-- The type of a command's result. -/
def responseName (command : String) : String :=
  Text.pascalCase command ++ "Response"

end Bindery.TypeScript
