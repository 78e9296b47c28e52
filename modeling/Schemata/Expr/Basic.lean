/-!
Validator expressions: a schema rooted at the schema namespace, method calls and member access
chained onto it, and the literals that its arguments need. `Expr.identifiers` lists the other
validators that an expression mentions, each once, in the order of first mention.
-/
namespace Schemata

/-- A validator expression. Keys of an `object` keep their order and may repeat. -/
inductive Expr where
  /-- A schema constructor, such as `z.array(…)`. -/
  | zod (method : String) (args : List Expr)
  | call (target : Expr) (method : String) (args : List Expr)
  | member (target : Expr) (property : String)
  | ident (name : String)
  | object (fields : List (String × Expr))
  | array (items : List Expr)
  | str (value : String)
  /-- A numeric literal, spelled as it was written. -/
  | number (text : String)
  | bool (value : Bool)
  /-- A fragment that stands for itself. -/
  | raw (text : String)
  | arrow (body : Expr)
  deriving BEq, Repr, Inhabited

namespace Expr

/-- The name that a generated module binds the schema namespace to. -/
def namespaceName : String := "z"

def schema (method : String) : Expr := .zod method []

def anything : Expr := schema "any"

def isZod (method : String) : Expr → Bool
  | .zod m _ => m == method
  | _ => false

mutual

/-- Every reference in an expression from left to right, repetitions included. -/
def mentions : Expr → List String
  | .zod _ args => mentionsAll args
  | .call target _ args => target.mentions ++ mentionsAll args
  | .member target _ => target.mentions
  | .ident name => [name]
  | .object fields => mentionsFields fields
  | .array items => mentionsAll items
  | .arrow body => body.mentions
  | .str _ | .number _ | .bool _ | .raw _ => []

def mentionsAll : List Expr → List String
  | [] => []
  | e :: es => e.mentions ++ mentionsAll es

def mentionsFields : List (String × Expr) → List String
  | [] => []
  | (_, e) :: es => e.mentions ++ mentionsFields es

end

/-- Adds a name to the end of a list unless it is there. -/
def note (seen : List String) (name : String) : List String :=
  if name ∈ seen then seen else seen ++ [name]

mutual

/-- Notes the references of an expression behind those already `seen`. -/
def collect (seen : List String) : Expr → List String
  | .zod _ args => collectAll seen args
  | .call target _ args => collectAll (collect seen target) args
  | .member target _ => collect seen target
  | .ident name => note seen name
  | .object fields => collectFields seen fields
  | .array items => collectAll seen items
  | .arrow body => collect seen body
  | .str _ | .number _ | .bool _ | .raw _ => seen

def collectAll (seen : List String) : List Expr → List String
  | [] => seen
  | e :: es => collectAll (collect seen e) es

def collectFields (seen : List String) : List (String × Expr) → List String
  | [] => seen
  | (_, e) :: es => collectFields (collect seen e) es

end

/-- The validators mentioned anywhere, each once, by first mention. -/
def identifiers (e : Expr) : List String := collect [] e

end Expr

end Schemata
