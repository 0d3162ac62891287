/-!
# Descriptor of a command

What a synopsis says about a command: its name and its parameters, the required ones first.
-/

namespace Bindery.Synopsis
set_option autoImplicit false

/-- A command's name and its parameters, each list in the order of the synopsis. -/
structure Descriptor where
  name : String
  required : List String
  optional : List String
deriving Repr, DecidableEq, Inhabited

namespace Descriptor

/-- Whether a call must name a parameter. -/
def hasRequired (d : Descriptor) : Bool :=
  !d.required.isEmpty

/-- All parameters, each with whether it is required. -/
def parameters (d : Descriptor) : List (String × Bool) :=
  d.required.map (·, true) ++ d.optional.map (·, false)

/-- A parameter, in angle brackets if it is required and in square brackets if not. -/
def parameterText (parameter : String × Bool) : String :=
  if parameter.2 then "<" ++ parameter.1 ++ ">" else "[" ++ parameter.1 ++ "]"

/-- The one-line form `name <required> [optional]`. -/
def signature (d : Descriptor) : String :=
  " ".intercalate (d.name :: d.parameters.map parameterText)

end Descriptor

end Bindery.Synopsis
