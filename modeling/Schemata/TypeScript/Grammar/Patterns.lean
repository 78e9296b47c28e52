import Schemata.TypeScript.Grammar.Types

/-!
Patterns, which name a value or take it apart, and statements between braces.
-/
namespace Schemata.TypeScript.Grammar

open Parse

/-- The words that begin an expression and are no names where one is read. -/
def operatorWords : List String :=
  ["await", "class", "delete", "function", "import", "typeof", "using", "void", "yield"]

/-- The words that stand for a value which is never assigned to. -/
def valueWords : List String := ["false", "null", "super", "this", "true"]

/-- A value behind a pattern, taken where there is none to match. -/
def fallback (g : Grammar) : Parse Unit := skip (initializer g .closed)

def objectPattern (g : Grammar) : Parse Unit :=
  sparse "\x7b" "\x7d" <| oneOf [
    (do
      mark "..."
      g.pattern),
    (do
      discard (memberKey g)
      mark ":"
      g.pattern
      fallback g),
    (do
      discard anyName
      fallback g)]

def arrayPattern (g : Grammar) : Parse Unit :=
  sparse "[" "]" (do
    g.pattern
    fallback g)

def partsPattern (g : Grammar) : Parse Unit := or (objectPattern g) (arrayPattern g)

/-- A path from a name to a part of its value. -/
def pathSuffix (g : Grammar) : Parse Unit :=
  oneOf [
    (do
      markBut "." ['.']
      discard anyName),
    (do
      mark "["
      g.expressions .closed
      mark "]"),
    markBut "!" ['=']]

def patternRule (g : Grammar) : Parse Unit := do
  skip (mark "...")
  or (partsPattern g) (do
    or (keyword "this") (discard (nameBut (operatorWords ++ valueWords)))
    discard (many (pathSuffix g)))

/-- A name or the parts of a value. -/
def binding (g : Grammar) : Parse Unit := or (partsPattern g) (discard anyName)

def block (g : Grammar) : Parse Unit := do
  mark "\x7b"
  discard (many g.statement)
  mark "\x7d"

/-- A block that a semicolon may follow, where one can be left out. -/
def closedBlock (g : Grammar) : Parse Unit := do
  block g
  skipImpliedSemicolon .type

end Schemata.TypeScript.Grammar
