import Schemata.Resolution.Candidate

/-!
Which names can be reached along the dependencies within a list of candidates.
-/
namespace Schemata.Resolution

/-- The foreign dependencies of a name that are candidates of the list. -/
def successors (nodes : List Candidate) (name : String) : List String :=
  match nodes.find? (·.var == name) with
  | some c => c.foreign.filter fun d => nodes.any (·.var == d)
  | none => []

/-- Visits the names of a stack and what follows them; `seen` holds all names that were ever on
the stack. A step takes one name, so the number of names bounds the steps. -/
def explore (next : String → List String) : Nat → List String → List String → List String
  | 0, _, seen => seen
  | _ + 1, [], seen => seen
  | steps + 1, name :: stack, seen =>
    let fresh := ((next name).filter (· ∉ seen)).eraseDups
    explore next steps (fresh ++ stack) (seen ++ fresh)

/-- The names that at least one step leads to. -/
def reachable (nodes : List Candidate) (name : String) : List String :=
  let start := (successors nodes name).eraseDups
  explore (successors nodes) (nodes.length + 1) start start

/-- What each candidate reaches. -/
structure ReachTable where
  rows : List (String × List String)

namespace ReachTable

def ofNodes (nodes : List Candidate) : ReachTable :=
  ⟨nodes.map fun c => (c.var, reachable nodes c.var)⟩

def of (t : ReachTable) (name : String) : List String := (t.rows.lookup name).getD []

def reaches (t : ReachTable) (source target : String) : Bool := target ∈ t.of source

/-- Whether each of two names reaches the other. -/
def connected (t : ReachTable) (a b : String) : Bool := t.reaches a b && t.reaches b a

end ReachTable

end Schemata.Resolution
