import Schemata.Resolution.Placement
import Schemata.Resolution.Reachability

/-!
Why candidates were left unplaced. Over the graph of the unplaced ones, a candidate on a cycle is
reported with all that the cycle connects; else one that needs an undeclared validator with these;
else one that waits for such a candidate with what it waits for. What remains was only short of
rounds.
-/
namespace Schemata.Resolution

inductive Cause where
  /-- On a dependency cycle through other candidates, which are all listed. -/
  | cycle (members : List String)
  /-- Needs validators that no declaration gives. -/
  | missing (names : List String)
  /-- Waits for validators that can never be placed. -/
  | blocked (names : List String)
  /-- Could be placed in further rounds. -/
  | starved
  deriving DecidableEq, Repr

structure Finding where
  var : String
  type : String
  cause : Cause
  deriving DecidableEq, Repr

/-- The foreign dependencies that no candidate is named after. -/
def missingNames (candidates : List Candidate) (c : Candidate) : List String :=
  c.foreign.filter fun d => !candidates.any (·.var == d)

/-- Whether a candidate is on a cycle or needs a name that is missing. -/
def isRoot (candidates : List Candidate) (table : ReachTable) (c : Candidate) : Bool :=
  table.reaches c.var c.var || !(missingNames candidates c).isEmpty

/-- Whether a candidate is a root or reaches one. -/
def isDoomed (candidates nodes : List Candidate) (table : ReachTable) (name : String) : Bool :=
  nodes.any fun r => isRoot candidates table r && (r.var == name || table.reaches name r.var)

/-- The unplaced candidates on the cycles of a candidate, in the order of extraction. -/
def cycleMembers (nodes : List Candidate) (table : ReachTable) (c : Candidate) : List String :=
  (nodes.filter fun d => table.connected c.var d.var).map (·.var)

/-- The foreign dependencies that can never be placed. -/
def blockers (candidates nodes : List Candidate) (table : ReachTable) (c : Candidate) :
    List String :=
  c.foreign.filter fun d => nodes.any (·.var == d) && isDoomed candidates nodes table d

def causeOf (candidates nodes : List Candidate) (table : ReachTable) (c : Candidate) : Cause :=
  if table.reaches c.var c.var then .cycle (cycleMembers nodes table c)
  else if !(missingNames candidates c).isEmpty then .missing (missingNames candidates c)
  else if isDoomed candidates nodes table c.var then
    .blocked (blockers candidates nodes table c)
  else .starved

/-- The findings on every unplaced candidate, in the order of extraction. -/
def classify (candidates : List Candidate) (unresolved : List String) : List Finding :=
  let nodes := unresolved.filterMap fun name => candidates.find? (·.var == name)
  let table := ReachTable.ofNodes nodes
  nodes.map fun c => ⟨c.var, c.type, causeOf candidates nodes table c⟩

/-- The one error that lists every unplaced validator, if there is any. -/
def errorMessage (findings : List Finding) : Option String :=
  if findings.isEmpty then none
  else some ("Some schemas can't be generated due to circular dependencies:" ++
    String.join (findings.map fun f => "\n" ++ f.var))

end Schemata.Resolution
