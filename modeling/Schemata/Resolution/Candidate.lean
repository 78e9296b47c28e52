import Schemata.Statement

/-!
Candidates: declarations with their compiled validators, before it is known in which order the
validators can stand.
-/
namespace Schemata

/-- A type applied to `any` as often as it has parameters. -/
def typeReference (name : String) (parameters : Nat) : String :=
  if parameters = 0 then name
  else name ++ "<" ++ ", ".intercalate (List.replicate parameters "any") ++ ">"

structure Candidate where
  type : String
  /-- The name of its validator. -/
  var : String
  statement : Statement
  /-- The validators that the statement mentions. -/
  dependencies : List String
  /-- Whether the validator needs the declaration as a value. -/
  needsValue : Bool := false
  parameters : Nat := 0
  deriving BEq, Repr, Inhabited

namespace Candidate

def isSelfReferencing (c : Candidate) : Bool := c.var ∈ c.dependencies

def reference (c : Candidate) : String := typeReference c.type c.parameters

/-- The dependencies on other validators. -/
def foreign (c : Candidate) : List String := c.dependencies.filter (· ≠ c.var)

end Candidate

end Schemata
