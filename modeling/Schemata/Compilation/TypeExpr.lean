import Schemata.DocComment.Refinement
import Schemata.TypeScript.Syntax

/-!
The validator of a type. References become the validators of the named types, except for type
parameters and some names with a validator of their own; a type that cannot be expressed accepts
everything.
-/
namespace Schemata.Compilation

open TypeScript DocComment

/-- What the validator of a type depends on beside the type. -/
structure Context where
  /-- The name of another type's validator. -/
  validatorName : String → String
  parameters : List String := []
  ignoreTags : Bool := false

def keyword : Keyword → Expr
  | .any => .schema "any"
  | .boolean => .schema "boolean"
  | .never => .schema "never"
  | .number => .schema "number"
  | .object => .zod "record" [.anything]
  | .string => .schema "string"
  | .symbol => .schema "symbol"
  | .uniqueSymbol => .anything
  | .unknown => .schema "unknown"
  | .void => .schema "void"

/-- A string literal as a value: its text, or its spelling where that holds escapes. -/
def stringValue (literal : String) : Expr :=
  match unquote? literal with
  | some text => .str text
  | none => .raw literal

def reference (ctx : Context) (name : String) : Expr :=
  if name ∈ ctx.parameters then .anything
  else
    match name with
    | "Date" => .schema "date"
    | "bigint" => .schema "bigint"
    | "undefined" => .schema "undefined"
    | "Function" => .schema "function"
    | "Array" => .zod "array" [.anything]
    | "ReadonlyArray" => .zod "array" [.anything]
    | _ => .ident (ctx.validatorName name)

mutual

/-- The texts of the string literals in a type of keys, from left to right. -/
def literalKeys : TypeExpr → List String
  | .stringLiteral literal => (unquote? literal).toList
  | .paren type => literalKeys type
  | .union members => literalKeysAll members
  | _ => []

def literalKeysAll : List TypeExpr → List String
  | [] => []
  | t :: ts => literalKeys t ++ literalKeysAll ts

end

def mask (keys : List String) : Expr := .object (keys.map fun key => (key, .bool true))

/-- The validator of a type with arguments, whose validators are given beside them. -/
def application (ctx : Context) (name : String) (args : List TypeExpr) (compiled : List Expr) :
    Expr :=
  let first := compiled.getD 0 .anything
  let second := compiled.getD 1 .anything
  let keys := mask ((args[1]?).elim [] literalKeys)
  match name with
  | "Array" => .zod "array" [first]
  | "ReadonlyArray" => .zod "array" [first]
  | "Set" => .zod "set" [first]
  | "Promise" => .zod "promise" [first]
  | "Map" => .zod "map" [first, second]
  | "Record" => .zod "record" [first, second]
  | "Partial" => .call first "partial" []
  | "Required" => .call first "required" []
  | "Readonly" => first
  | "NonNullable" => first
  | "Pick" => .call first "pick" [keys]
  | "Omit" => .call first "omit" [keys]
  | _ => reference ctx name

/-- One member stands for itself. -/
def unionOf : List Expr → Expr
  | [e] => e
  | es => .zod "union" [.array es]

/-- The first member, and each further one required beside it. -/
def intersectionOf : List Expr → Expr
  | [] => .anything
  | e :: es => es.foldl (fun acc next => .call acc "and" [next]) e

def isNull : TypeExpr → Bool
  | .null => true
  | _ => false

def isUndefined : TypeExpr → Bool
  | .undefined => true
  | _ => false

def isNullish (t : TypeExpr) : Bool := isNull t || isUndefined t

/-- Chains a call without arguments onto an expression if `condition` holds. -/
def callIf (condition : Bool) (method : String) (e : Expr) : Expr :=
  if condition then .call e method [] else e

/-- A union of the `concrete` members, which also accepts what the others are; where no member is
concrete, the union of `all`. -/
def unionWith (hasNull hasUndefined : Bool) (concrete all : List Expr) : Expr :=
  if concrete.isEmpty then unionOf all
  else callIf hasUndefined "optional" (callIf hasNull "nullable" (unionOf concrete))

/-- A field, refined by its documentation, then marked as optional, then given its default. -/
def field (ctx : Context) (isOptional : Bool) (doc : Option String) (e : Expr) : Expr :=
  let refined : Refined :=
    match doc with
    | some comment => if ctx.ignoreTags then ⟨e, none⟩ else Refined.ofComment e comment
    | none => ⟨e, none⟩
  Refined.applyDefault refined.default (callIf isOptional "optional" refined.expr)

/-- An object with these fields; `index` is the validator of what an index accepts. -/
def objectOf (fields : List (String × Expr)) (index : Option Expr) : Expr :=
  match index with
  | none => .zod "object" [.object fields]
  | some value =>
    if fields.isEmpty then .zod "record" [value]
    else .call (.zod "object" [.object fields]) "catchall" [value]

mutual

def compile (ctx : Context) : TypeExpr → Expr
  | .keyword k => keyword k
  | .null => .schema "null"
  | .undefined => .schema "undefined"
  | .boolLiteral value => .zod "literal" [.bool value]
  | .stringLiteral literal => .zod "literal" [stringValue literal]
  | .numberLiteral text => .zod "literal" [.number text]
  | .ref name => reference ctx name
  | .apply name args => application ctx name args (compileAll ctx args)
  | .array element => .zod "array" [compile ctx element]
  | .readonly type => compile ctx type
  | .paren type => compile ctx type
  | .tuple elements =>
    let items := Expr.zod "tuple" [.array (compileItems ctx elements)]
    match compileRest ctx elements with
    | some rest => .call items "rest" [rest]
    | none => items
  | .union members =>
    unionWith (members.any isNull) (members.any isUndefined) (compileConcrete ctx members)
      (compileAll ctx members)
  | .inter members => intersectionOf (compileAll ctx members)
  | .object members => objectOf (compileFields ctx members) (compileIndex ctx members)
  | .function signature => compileSignature ctx signature
  | .lookup object index =>
    match literalKeys index with
    | [key] => .member (.member (compile ctx object) "shape") key
    | _ => .anything
  | .template => .schema "string"
  | .other => .anything

def compileAll (ctx : Context) : List TypeExpr → List Expr
  | [] => []
  | t :: ts => compile ctx t :: compileAll ctx ts

/-- The validators of the members that are neither `null` nor `undefined`. -/
def compileConcrete (ctx : Context) : List TypeExpr → List Expr
  | [] => []
  | t :: ts =>
    if isNullish t then compileConcrete ctx ts else compile ctx t :: compileConcrete ctx ts

/-- The items of a tuple. A labelled rest element counts as an item. -/
def compileItems (ctx : Context) : List TupleElement → List Expr
  | [] => []
  | .required _ type :: es => compile ctx type :: compileItems ctx es
  | .optional _ type :: es => .call (compile ctx type) "optional" [] :: compileItems ctx es
  | .rest (some _) type :: es => compile ctx type :: compileItems ctx es
  | .rest none _ :: es => compileItems ctx es

/-- What the last rest element without a label accepts: the elements of an array type, or else the
type itself. -/
def compileRest (ctx : Context) : List TupleElement → Option Expr
  | [] => none
  | .rest none (.array element) :: es => compileRest ctx es <|> some (compile ctx element)
  | .rest none type :: es => compileRest ctx es <|> some (compile ctx type)
  | _ :: es => compileRest ctx es

/-- The properties and methods of an object type in order. -/
def compileFields (ctx : Context) : List Member → List (String × Expr)
  | [] => []
  | .property key isOptional type doc :: ms =>
    match key.name? with
    | some name =>
      (name, field ctx isOptional doc (compileOr ctx .anything type)) :: compileFields ctx ms
    | none => compileFields ctx ms
  | .method key isOptional signature :: ms =>
    match key.name? with
    | some name =>
      (name, callIf isOptional "optional" (compileSignature ctx signature)) :: compileFields ctx ms
    | none => compileFields ctx ms
  | .index _ :: ms => compileFields ctx ms
  | .mapped :: ms => compileFields ctx ms

/-- What the last index of an object type accepts. -/
def compileIndex (ctx : Context) : List Member → Option Expr
  | [] => none
  | .index value :: ms => compileIndex ctx ms <|> some (compile ctx value)
  | .mapped :: ms => compileIndex ctx ms <|> some .anything
  | .property _ _ _ _ :: ms => compileIndex ctx ms
  | .method _ _ _ :: ms => compileIndex ctx ms

def compileSignature (ctx : Context) : Signature → Expr
  | .mk _ parameters result =>
    .call (.call (.schema "function") "args" (compileParameters ctx parameters)) "returns"
      [compileOr ctx (.schema "void") result]

def compileParameters (ctx : Context) : List Parameter → List Expr
  | [] => []
  | .mk isOptional type :: ps =>
    callIf isOptional "optional" (compileOr ctx .anything type) :: compileParameters ctx ps

/-- The validator of a type that may be left out. -/
def compileOr (ctx : Context) (default : Expr) : Option TypeExpr → Expr
  | some type => compile ctx type
  | none => default

end

end Schemata.Compilation
