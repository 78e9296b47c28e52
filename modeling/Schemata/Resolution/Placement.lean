import Schemata.Expr.Erasure
import Schemata.Resolution.Candidate

/-!
Placing candidates so that every validator follows those it uses. Resolution goes in rounds: a
round places, in the order of extraction, the candidates whose foreign dependencies were all placed
before it began. Rounds end when nothing is left, when one places nothing, or at a limit.
-/
namespace Schemata

/-- A placed validator and the type that it checks. -/
structure Placed where
  type : String
  parameters : Nat
  statement : Statement
  deriving BEq, Repr, Inhabited

namespace Placed

def var (p : Placed) : String := p.statement.name

def reference (p : Placed) : String := typeReference p.type p.parameters

end Placed

namespace Resolution

/-- The validators placed so far, by name, the first one first. -/
abbrev Placements := List (String × Placed)

namespace Placements

def has (ps : Placements) (name : String) : Bool := ps.any (·.1 == name)

/-- Whether a name is that of a deferred validator. -/
def defers (ps : Placements) (name : String) : Bool :=
  (ps.lookup name).any fun p => p.statement.isDeferred

end Placements

/-- Whether all that a candidate waits for is placed. -/
def isReady (placed : Placements) (c : Candidate) : Bool := c.foreign.all placed.has

/-- The validators whose fields a candidate cannot look up: itself, if it refers to itself, and
the deferred ones. -/
def hidesShape (placed : Placements) (c : Candidate) (name : String) : Bool :=
  (c.isSelfReferencing && name == c.var) || placed.defers name

/-- The final statement of a candidate whose dependencies are placed. -/
def finish (placed : Placements) (c : Candidate) : Statement :=
  let erased := { c.statement with init := c.statement.init.eraseLookups (hidesShape placed c) }
  if c.isSelfReferencing then erased.defer c.reference else erased

def place (placed : Placements) (c : Candidate) : Placements :=
  placed ++ [(c.var, ⟨c.type, c.parameters, finish placed c⟩)]

structure State where
  placed : Placements := []
  chosen : List Candidate := []
  pending : List Candidate
  rounds : Nat := 0
  deriving Repr, Inhabited

namespace State

/-- One round, which judges every candidate by what was placed before it. -/
def round (s : State) : State :=
  let ready := s.pending.filter (isReady s.placed)
  { placed := ready.foldl place s.placed
    chosen := s.chosen ++ ready
    pending := s.pending.filter fun c => !isReady s.placed c
    rounds := s.rounds + 1 }

/-- Whether a further round can place anything. -/
def isStalled (s : State) : Bool := !s.pending.any (isReady s.placed)

/-- At most `limit` rounds. A round that places nothing is the last one. -/
def run : Nat → State → State
  | 0, s => s
  | limit + 1, s =>
    if s.pending.isEmpty then s
    else if s.isStalled then s.round
    else run limit s.round

end State

structure Outcome where
  placed : Placements
  /-- The types of deferred validators. -/
  typeImports : List String
  /-- The declarations that are needed as values. -/
  valueImports : List String
  /-- The validators that were not placed, in the order of extraction. -/
  unresolved : List String
  rounds : Nat
  deriving Repr, Inhabited

/-- Texts in order, each once. -/
def sortedNames (names : List String) : List String :=
  (names.mergeSort fun a b => decide (a ≤ b)).eraseDups

def resolve (candidates : List Candidate) (limit : Nat) : Outcome :=
  let final := State.run limit { pending := candidates }
  { placed := final.placed
    typeImports := sortedNames ((final.chosen.filter (·.isSelfReferencing)).map (·.type))
    valueImports := sortedNames ((final.chosen.filter (·.needsValue)).map (·.type))
    unresolved := final.pending.map (·.var)
    rounds := final.rounds }

end Resolution

end Schemata
