import Schemata.TypeScript.Lexeme
import Schemata.TypeScript.Syntax

/-!
The grammar as open recursion. Rules that contain each other refer to the fields of a `Grammar`;
the grammar of depth `n + 1` is built from the one of depth `n`, so that nesting is bounded while
every rule is an ordinary function.
-/
namespace Schemata.TypeScript

open Parse

/-- The rules that other rules contain. -/
structure Grammar where
  /-- Whether `<` begins an element rather than an assertion. -/
  elements : Bool
  type : Follow → Parse TypeExpr
  /-- A type without an operator at its top. -/
  primaryType : Follow → Parse TypeExpr
  expression : Follow → Parse Unit
  /-- What an operator takes, and whether it can be assigned to. -/
  operand : Follow → Parse Bool
  /-- What names a parameter, or the parts that it is taken apart into. -/
  pattern : Parse Unit
  element : Parse Unit
  statement : Parse Unit

namespace Grammar

/-- The grammar that nothing is nested in. -/
def empty (elements : Bool) : Grammar where
  elements
  type _ := fail
  primaryType _ := fail
  expression _ := fail
  operand _ := fail
  pattern := fail
  element := fail
  statement := fail

/-- Items between two marks, set apart by commas, with a comma at choice behind them, even if there
are none. -/
def listedLoosely {α : Type} (opening closing : String) (item : Parse α) : Parse (List α) := do
  mark opening
  let items ← sepBy item (mark ",")
  skip (mark ",")
  mark closing
  pure items

/-- As `listedLoosely`, with at least one item. -/
def listed1 {α : Type} (opening closing : String) (item : Parse α) : Parse (List α) := do
  mark opening
  let items ← sepBy1 item (mark ",")
  skip (mark ",")
  mark closing
  pure items

/-- As `listed1`, or nothing at all between the marks. -/
def listed {α : Type} (opening closing : String) (item : Parse α) : Parse (List α) :=
  or (do mark opening; mark closing; pure []) (listed1 opening closing item)

/-- Items between two marks, set apart by commas, where an item may be left out. -/
def sparse {α : Type} (opening closing : String) (item : Parse α) : Parse Unit := do
  mark opening
  skip item
  discard (many (do mark ","; skip item))
  mark closing

def commentAhead : Parse Bool := do pure !(← place).skipTrivia.1.isEmpty

/-- Several expressions, of which the last one counts. -/
def expressions (g : Grammar) (follow : Follow) : Parse Unit :=
  discard (sepBy1 (g.expression follow) (do sameStatement follow; mark ","))

/-- An expression, or several that are spread out of one. -/
def spread (g : Grammar) : Parse Unit := do
  skip (mark "...")
  g.expression .closed

def arguments (g : Grammar) : Parse Unit := sparse "(" ")" (spread g)

/-- The value that a name is given behind `=`. -/
def initializer (g : Grammar) (follow : Follow) : Parse Unit := do
  sameStatement follow
  markBut "=" ['=', '>']
  g.expression follow

end Grammar

end Schemata.TypeScript
