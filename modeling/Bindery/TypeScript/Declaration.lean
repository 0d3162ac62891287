import Bindery.Code.Builder
import Bindery.TypeScript.TypeExpr

/-!
# Declarations

The statements a generated file is made of: imports, interfaces, type aliases, classes with their
methods, and code taken over line by line.
-/

namespace Bindery.TypeScript
set_option autoImplicit false

open Code (Fragment)
open Text (openBrace closeBrace)

/-- An import statement. The module's name is written between quotes as it is. -/
structure Import where
  source : String
  default : Option String
  namespaceName : Option String
  named : List String
  typeOnly : Bool
deriving Repr, DecidableEq, Inhabited

namespace Import

/-- What is imported: the default export, the whole module, single names. -/
def clauses (i : Import) : List String :=
  i.default.toList ++ (i.namespaceName.map ("* as " ++ ·)).toList ++
    (if i.named.isEmpty then [] else [Text.inBraces (", ".intercalate i.named)])

/-- The statement. -/
def statement (i : Import) : String :=
  if i.clauses.isEmpty then "import \"" ++ i.source ++ "\";"
  else
    "import " ++ (if i.typeOnly then "type " else "") ++ ", ".intercalate i.clauses ++
      " from \"" ++ i.source ++ "\";"

end Import

/-- A parameter of a method or constructor. -/
structure Parameter where
  name : String
  type : String
  default : Option String
  /-- Whether a constructor keeps it as a private property. -/
  isPrivate : Bool
deriving Repr, DecidableEq, Inhabited

/-- The parameter in a parameter list. -/
def Parameter.signature (p : Parameter) : String :=
  (if p.isPrivate then "private " else "") ++ p.name ++ ": " ++ p.type ++
    (match p.default with
      | some value => " = " ++ value
      | none => "")

/-- A parameter list, without its parentheses. -/
def parameterList (ps : List Parameter) : String :=
  ", ".intercalate (ps.map Parameter.signature)

/-- A method of a class. The lines of its body keep the blanks they start with. -/
structure Method where
  name : String
  doc : Option String
  isPrivate : Bool
  /-- The type parameters, without their angle brackets. -/
  typeParameters : Option String
  parameters : List Parameter
  returns : Option String
  body : List String
deriving Repr, DecidableEq, Inhabited

namespace Method

/-- The doc text of a method; blank text is none. -/
def docOf (text : String) : Option String :=
  if Text.isBlankText text then none else some text

/-- The line up to the opening brace. -/
def header (m : Method) : String :=
  (if m.isPrivate then "private " else "") ++ m.name ++
    (match m.typeParameters with
      | some ps => "<" ++ ps ++ ">"
      | none => "") ++
    "(" ++ parameterList m.parameters ++ ")" ++
    (match m.returns with
      | some type => ": " ++ type
      | none => "") ++ " " ++ openBrace

/-- The method as code. -/
def fragments (m : Method) : List Fragment :=
  Fragment.ofDoc m.doc ++ [.block m.header (m.body.map .line) (some closeBrace)]

end Method

/-- An exported class. -/
structure Class where
  name : String
  isDefault : Bool
  /-- The parameters of a constructor with an empty body. -/
  constructor : Option (List Parameter)
  methods : List Method
deriving Repr, DecidableEq, Inhabited

namespace Class

/-- The constructor as code. -/
def constructorFragments (c : Class) : List Fragment :=
  match c.constructor with
  | some ps => [.line ("constructor(" ++ parameterList ps ++ ") {}")]
  | none => []

/-- The members of the class, with a blank line between any two. -/
def body (c : Class) : List Fragment :=
  c.methods.foldl
    (fun body m => body ++ (if body.isEmpty then [] else [.blank]) ++ m.fragments)
    c.constructorFragments

end Class

/-- A declaration or statement of a file. -/
inductive Declaration where
  | importStatement (statement : Import)
  | method (method : Method)
  | classDefinition (definition : Class)
  | interface (name : String) (doc : Option String) (fields : List Field)
  | typeAlias (name : String) (doc : Option String) (type : TypeExpr)
  /-- Code taken over line by line. -/
  | code (text : String)
  | fragments (fragments : List Fragment)
deriving Inhabited

namespace Declaration

/-- Code of several lines. -/
def ofLines (lines : List String) : Declaration :=
  .code ("\n".intercalate lines)

/-- The declaration as code. -/
def toFragments : Declaration → List Fragment
  | .importStatement i => [.line i.statement]
  | .method m => m.fragments
  | .classDefinition c =>
    let visibility := if c.isDefault then "export default " else "export "
    [.block (visibility ++ "class " ++ c.name ++ " " ++ openBrace) c.body (some closeBrace)]
  | .interface name doc [] =>
    Fragment.ofDoc doc ++ [.line ("export interface " ++ name ++ " {}")]
  | .interface name doc fields =>
    Fragment.ofDoc doc ++
      [.block ("export interface " ++ name ++ " " ++ openBrace) (TypeExpr.fieldFragments fields)
        (some closeBrace)]
  | .typeAlias name doc type =>
    Fragment.ofDoc doc ++ [type.fragment ("export type " ++ name ++ " = ") ";"]
  | .code text => (Text.linesOf text).map .line
  | .fragments fs => fs

/-- The declaration as text, with the standard indentation. -/
def render (d : Declaration) : String :=
  Code.render .standard d.toFragments

end Declaration

end Bindery.TypeScript
