/-!
Type declarations and the types in them, as far as validators can express them. What has no
validator of its own, such as `keyof`, `typeof` and conditional types, is one form, `other`.
-/
namespace Schemata.TypeScript

/-- The types that a keyword names. -/
inductive Keyword where
  | any
  | boolean
  | never
  | number
  | object
  | string
  | symbol
  | uniqueSymbol
  | unknown
  | void
  deriving DecidableEq, Repr, Inhabited

/-- How a member is named. -/
inductive Key where
  /-- An identifier, a private name or a number, as it is spelled. -/
  | plain (text : String)
  /-- A string literal with its quotes. -/
  | quoted (literal : String)
  | computed
  deriving DecidableEq, Repr, Inhabited

mutual

inductive TypeExpr where
  | keyword (k : Keyword)
  | null
  | undefined
  | boolLiteral (value : Bool)
  /-- A string literal with its quotes. -/
  | stringLiteral (literal : String)
  /-- A number as it is spelled, with its sign. -/
  | numberLiteral (text : String)
  | ref (name : String)
  | apply (name : String) (args : List TypeExpr)
  | array (element : TypeExpr)
  | readonly (type : TypeExpr)
  | paren (type : TypeExpr)
  | tuple (elements : List TupleElement)
  | union (members : List TypeExpr)
  | inter (members : List TypeExpr)
  | object (members : List Member)
  | function (signature : Signature)
  | lookup (object index : TypeExpr)
  | template
  | other

inductive TupleElement where
  | required (label : Option String) (type : TypeExpr)
  | optional (label : Option String) (type : TypeExpr)
  | rest (label : Option String) (type : TypeExpr)

/-- A member of an object type. A property keeps the documentation comment above it. -/
inductive Member where
  | property (key : Key) (isOptional : Bool) (type : Option TypeExpr) (doc : Option String)
  | method (key : Key) (isOptional : Bool) (signature : Signature)
  | index (value : TypeExpr)
  /-- An index over the members of a type. -/
  | mapped

inductive Parameter where
  | mk (isOptional : Bool) (type : Option TypeExpr)

inductive Signature where
  | mk (typeParameters : List String) (parameters : List Parameter) (result : Option TypeExpr)

end

deriving instance Repr, Inhabited for TypeExpr, TupleElement, Member, Parameter, Signature

/-- What stands under a declared name. -/
inductive Body where
  | alias (type : TypeExpr)
  | interface (bases : List TypeExpr) (members : List Member)
  | enum
  deriving Repr, Inhabited

/-- The kind of a declaration as reports spell it. -/
def Body.kind : Body → String
  | .alias _ => "type_alias"
  | .interface _ _ => "interface"
  | .enum => "enum"

/-- A declaration at the top of a source. -/
structure Declaration where
  name : String
  exported : Bool := false
  /-- The documentation comment right above. -/
  doc : Option String := none
  /-- The lines of the declaration, counted from one. -/
  firstLine : Nat := 1
  lastLine : Nat := 1
  typeParameters : List String := []
  body : Body
  deriving Repr, Inhabited

namespace Declaration

/-- The number of different type parameters. -/
def arity (d : Declaration) : Nat := d.typeParameters.eraseDups.length

end Declaration

/-- The text of a string literal without escapes between quotes of one kind. -/
def unquote? (literal : String) : Option String :=
  match literal.toList with
  | quote :: rest =>
    if (quote = '"' ∨ quote = '\'') ∧ rest.getLast? = some quote ∧ '\\' ∉ rest.dropLast then
      some (String.ofList rest.dropLast)
    else none
  | [] => none

/-- The property that a member's key names; a computed key names none, nor does a string literal
with escapes. -/
def Key.name? : Key → Option String
  | plain text => some text
  | quoted literal => unquote? literal
  | computed => none

end Schemata.TypeScript
