import Schemata.Glob.Matching

/-!
Filters of declaration names: a name passes unless an exclusion matches it or, where there are
inclusions, none of them does.
-/
namespace Schemata.Glob

structure InvalidPattern where
  pattern : String
  cause : PatternError
  deriving DecidableEq, Repr

def InvalidPattern.message (e : InvalidPattern) : String :=
  "invalid name pattern '" ++ e.pattern ++ "': error parsing glob '" ++ e.pattern ++ "': " ++
    e.cause.message

structure NameFilter where
  inclusions : List (List Token) := []
  exclusions : List (List Token) := []
  deriving Repr, Inhabited

namespace NameFilter

def parseAll : List String → Except InvalidPattern (List (List Token))
  | [] => .ok []
  | p :: ps =>
    match Pattern.parse p with
    | .error cause => .error ⟨p, cause⟩
    | .ok tokens => (parseAll ps).map (tokens :: ·)

/-- Reads the inclusions, then the exclusions. -/
def ofPatterns (included excluded : List String) : Except InvalidPattern NameFilter := do
  let included ← parseAll included
  let excluded ← parseAll excluded
  .ok ⟨included, excluded⟩

def matchesAny (patterns : List (List Token)) (name : String) : Bool :=
  patterns.any (accepts · name)

def accepts (f : NameFilter) (name : String) : Bool :=
  !matchesAny f.exclusions name && (f.inclusions.isEmpty || matchesAny f.inclusions name)

def all : NameFilter := {}

end NameFilter

end Schemata.Glob
