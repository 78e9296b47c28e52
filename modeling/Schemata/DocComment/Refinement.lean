import Schemata.DocComment.Tag
import Schemata.Expr.Basic
import Schemata.Text.Numeral

/-!
What tags add to a validator. Bounds, formats and patterns are chained onto the expression in the
order of the tags; a default value is kept apart, because it goes outside of what marks a
property as optional. All other tags, and bounds that are no numbers, add nothing.
-/
namespace Schemata.DocComment

open Text

/-- One effect of a tag. -/
inductive Refinement where
  /-- A call of `method` with these arguments. -/
  | call (method : String) (args : List Expr)
  | default (value : Expr)
  deriving BEq, Repr, Inhabited

namespace Refinement

/-- The first word of a value if it is a number. -/
def numeral? (value : String) : Option Expr :=
  let word := firstWord value.toList
  if isNumeral word then some (.number (String.ofList word)) else none

def formatMethod? : String → Option String
  | "email" => some "email"
  | "uuid" => some "uuid"
  | "url" => some "url"
  | "uri" => some "url"
  | "date-time" => some "datetime"
  | _ => none

/-- A pattern between slashes, of which it may bring its own. -/
def regex (value : String) : Expr :=
  .raw (String.ofList ('/' :: (dropRight (· == '/') (value.toList.dropWhile (· == '/')) ++ ['/'])))

def opensLiteral : List Char → Bool
  | c :: _ => c == '"' || c == '\'' || c == '[' || c == '\x7b'
  | [] => false

/-- A value that is a literal stands for itself; any other is a string. -/
def defaultValue (value : String) : Expr :=
  if opensLiteral value.toList || value == "true" || value == "false" || value == "null" ||
      isNumeral value.toList then
    .raw value
  else .str value

def minimumTags : List String := ["minimum", "minLength", "minItems"]

def maximumTags : List String := ["maximum", "maxLength", "maxItems"]

def ofTag? (tag : Tag) : Option Refinement :=
  if tag.name ∈ minimumTags then (numeral? tag.value).map fun n => .call "min" [n]
  else if tag.name ∈ maximumTags then (numeral? tag.value).map fun n => .call "max" [n]
  else if tag.name = "format" then (formatMethod? tag.value).map fun m => .call m []
  else if tag.name = "pattern" then
    if tag.value.isEmpty then none else some (.call "regex" [regex tag.value])
  else if tag.name = "default" then
    if tag.value.isEmpty then none else some (.default (defaultValue tag.value))
  else none

end Refinement

/-- An expression with its refinements, and the default value of the last tag that gives one. -/
structure Refined where
  expr : Expr
  default : Option Expr := none
  deriving BEq, Repr, Inhabited

namespace Refined

def add (r : Refined) : Refinement → Refined
  | .call method args => { r with expr := .call r.expr method args }
  | .default value => { r with default := some value }

def addTag (r : Refined) (tag : Tag) : Refined :=
  match Refinement.ofTag? tag with
  | some refinement => r.add refinement
  | none => r

def ofTags (expr : Expr) (tags : List Tag) : Refined := tags.foldl addTag ⟨expr, none⟩

def ofComment (expr : Expr) (comment : String) : Refined := ofTags expr (Tag.ofComment comment)

def applyDefault (value : Option Expr) (expr : Expr) : Expr :=
  match value with
  | some d => .call expr "default" [d]
  | none => expr

end Refined

end Schemata.DocComment
