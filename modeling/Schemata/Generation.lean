import Schemata.Compilation.Declaration
import Schemata.Glob.NameFilter
import Schemata.Modules.Assertions
import Schemata.Modules.Validators
import Schemata.Naming
import Schemata.Resolution.Diagnosis
import Schemata.TypeScript.SyntaxError

/-!
Generation: from a source to its validators. The declarations that pass a filter are compiled to
candidates, which are ordered in rounds; what could not be placed is explained. Generation fails
only before the ordering starts.
-/
namespace Schemata

open TypeScript Resolution

namespace Generation

structure Options where
  /-- Whether the source may hold elements. -/
  elements : Bool := false
  /-- The declarations that are looked at. -/
  accepts : String → Bool := fun _ => true
  naming : String → String := Naming.standard
  maxRounds : Nat := 10
  keepComments : Bool := false
  ignoreTags : Bool := false

inductive Failure where
  | unreadable (cause : SyntaxError)
  /-- Two declarations whose validators would have one name. -/
  | collision (var first second : String)
  deriving DecidableEq, Repr

def Failure.message : Failure → String
  | unreadable cause => cause.message
  | collision var first second =>
    "`" ++ first ++ "` and `" ++ second ++ "` both map to validator name `" ++ var ++ "`"

def Options.compilation (options : Options) : Compilation.Options where
  validatorName := options.naming
  dependencyName := options.naming
  keepComments := options.keepComments
  ignoreTags := options.ignoreTags

/-- The first candidate whose name an earlier one has, with the last of the earlier ones. -/
def collision? (earlier : List Candidate) : List Candidate → Option Failure
  | [] => none
  | c :: cs =>
    match earlier.find? (·.var == c.var) with
    | some first => some (.collision c.var first.type c.type)
    | none => collision? (c :: earlier) cs

def candidatesOf (options : Options) (declarations : List Declaration) : List Candidate :=
  (declarations.filter fun d => options.accepts d.name).map
    (Compilation.candidate options.compilation)

end Generation

structure Generation where
  candidates : List Candidate
  outcome : Outcome
  findings : List Finding
  deriving Repr

namespace Generation

/-- Orders candidates and explains what stays unplaced. -/
def ofCandidates (candidates : List Candidate) (maxRounds : Nat) : Generation :=
  let outcome := resolve candidates maxRounds
  ⟨candidates, outcome, classify candidates outcome.unresolved⟩

def ofSource (options : Options) (source : String) : Except Failure Generation := do
  let declarations ← (Source.parse options.elements source).mapError .unreadable
  let candidates := candidatesOf options declarations
  match collision? [] candidates with
  | some failure => .error failure
  | none => .ok (ofCandidates candidates options.maxRounds)

/-- Nothing, or one message on all that stays unplaced. -/
def errors (g : Generation) : List String := (errorMessage g.findings).toList

/-- Whether some validator had to be deferred. -/
def hasCircularDependencies (g : Generation) : Bool := !g.outcome.typeImports.isEmpty

def validatorNames (g : Generation) : List String := g.outcome.placed.map (·.1)

end Generation

end Schemata
