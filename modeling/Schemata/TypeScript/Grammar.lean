import Schemata.TypeScript.Grammar.Statements

/-!
The grammar of every depth. A rule that a deeper one contains takes a character first, a statement
apart, which may be an expression; so that twice as many levels as a source has characters are
never used up.
-/
namespace Schemata.TypeScript.Grammar

/-- The grammar that allows one level more than `g`. -/
def deeper (g : Grammar) : Grammar where
  elements := g.elements
  type := typeRule g
  primaryType := primaryTypeRule g
  expression := expressionRule g
  operand := operandRule g
  pattern := patternRule g
  element := elementRule g
  statement := statementRule g

def ofDepth (elements : Bool) (depth : Nat) : Grammar := depth.repeat deeper (empty elements)

def ofLength (elements : Bool) (length : Nat) : Grammar := ofDepth elements (2 * length + 8)

end Schemata.TypeScript.Grammar
