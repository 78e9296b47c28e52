import Schemata.Proofs.Resolution.Order
import Schemata.Resolution.Diagnosis

/-! Resolution reads no statement but the ones that it finishes. Candidates that differ only in their
statements are placed in the same rounds, in the same order, and leave the same findings. -/
namespace Schemata

def Candidate.reword (f : Statement → Statement) (c : Candidate) : Candidate :=
  { c with statement := f c.statement }

def Placed.reword (f : Statement → Statement) (p : Placed) : Placed :=
  { p with statement := f p.statement }

def Statement.uncommented (s : Statement) : Statement := { s with comment := none }

namespace Resolution

variable {f : Statement → Statement} {cs nodes order : List Candidate} {c : Candidate}
  {s t : State} {limit : Nat} {name : String}

/-! ## Rounds -/

/-- Two runs that place the same candidates but for their statements. -/
structure InStep (f : Statement → Statement) (s t : State) : Prop where
  chosen : t.chosen = s.chosen.map (Candidate.reword f)
  pending : t.pending = s.pending.map (Candidate.reword f)
  rounds : t.rounds = s.rounds
  placed : s.placed = placements s.chosen
  reworded : t.placed = placements t.chosen

theorem InStep.start (f : Statement → Statement) (cs : List Candidate) :
    InStep f { pending := cs } { pending := cs.map (Candidate.reword f) } where
  chosen := rfl
  pending := rfl
  rounds := rfl
  placed := rfl
  reworded := rfl

theorem InStep.has (same : InStep f s t) (name : String) :
    t.placed.has name = s.placed.has name := by
  rw [Bool.eq_iff_iff, has_iff, has_iff, same.reworded, same.placed, placements_names,
    placements_names, same.chosen, List.map_map]
  rfl

theorem InStep.isReady (same : InStep f s t) :
    isReady t.placed ∘ Candidate.reword f = isReady s.placed := by
  funext c
  exact congrArg (List.all c.foreign) (funext same.has)

theorem InStep.ready (same : InStep f s t) : t.pending.filter (Resolution.isReady t.placed) =
    (s.pending.filter (Resolution.isReady s.placed)).map (Candidate.reword f) := by
  rw [same.pending, List.filter_map, same.isReady]

theorem InStep.round (same : InStep f s t) : InStep f s.round t.round where
  chosen := by
    simp only [State.round, same.ready, same.chosen, List.map_append]
  pending := by
    have waiting : (fun c => !Resolution.isReady t.placed c) ∘ Candidate.reword f =
        fun c => !Resolution.isReady s.placed c := by
      rw [← same.isReady]
      rfl
    simp only [State.round]
    rw [same.pending, List.filter_map, waiting]
  rounds := by
    simp only [State.round, same.rounds]
  placed := by
    simp only [State.round, same.placed, placements, List.foldl_append]
  reworded := by
    simp only [State.round, same.reworded, placements, List.foldl_append]

theorem InStep.isStalled (same : InStep f s t) : t.isStalled = s.isStalled := by
  rw [State.isStalled, State.isStalled, same.pending, List.any_map, same.isReady]

theorem InStep.run (same : InStep f s t) (limit : Nat) :
    InStep f (State.run limit s) (State.run limit t) := by
  induction limit generalizing s t with
  | zero => exact same
  | succ limit ih =>
    have empty : t.pending.isEmpty = s.pending.isEmpty := by
      rw [same.pending, List.isEmpty_map]
    rw [State.run, State.run, empty, same.isStalled]
    cases s.pending.isEmpty with
    | true => exact same
    | false =>
      cases s.isStalled with
      | true => exact same.round
      | false => exact ih same.round

theorem resolve_inStep (f : Statement → Statement) (cs : List Candidate) (limit : Nat) :
    InStep f (State.run limit { pending := cs })
      (State.run limit { pending := cs.map (Candidate.reword f) }) :=
  (InStep.start f cs).run limit

/-- All of an outcome but the statements is the same. -/
theorem resolve_reword (f : Statement → Statement) (cs : List Candidate) (limit : Nat) :
    let outcome := resolve cs limit
    let reworded := resolve (cs.map (Candidate.reword f)) limit
    reworded.placed.map (·.1) = outcome.placed.map (·.1) ∧
    reworded.unresolved = outcome.unresolved ∧ reworded.rounds = outcome.rounds ∧
    reworded.typeImports = outcome.typeImports ∧ reworded.valueImports = outcome.valueImports := by
  have same := resolve_inStep f cs limit
  dsimp only [resolve]
  refine ⟨?_, ?_, same.rounds, ?_, ?_⟩
  · rw [same.reworded, same.placed, placements_names, placements_names, same.chosen, List.map_map]
    rfl
  · rw [same.pending, List.map_map]
    rfl
  · rw [same.chosen, List.filter_map, List.map_map]
    rfl
  · rw [same.chosen, List.filter_map, List.map_map]
    rfl

/-! ## Comments -/

theorem lookup_reword (f : Statement → Statement) (placed : Placements) (name : String) :
    (placed.map fun p => (p.1, p.2.reword f)).lookup name =
      (placed.lookup name).map (Placed.reword f) := by
  induction placed with
  | nil => rfl
  | cons p rest ih =>
    rw [List.map_cons, List.lookup_cons, List.lookup_cons]
    cases name == p.1 with
    | true => rfl
    | false => exact ih

theorem defers_uncommented (placed : Placements) :
    Placements.defers (placed.map fun p => (p.1, p.2.reword Statement.uncommented)) =
      placed.defers := by
  funext name
  rw [Placements.defers, lookup_reword, Placements.defers]
  cases placed.lookup name with
  | none => rfl
  | some p => rfl

/-- Comments pass through the end of a placement. -/
theorem placements_uncommented (order : List Candidate) :
    placements (order.map (Candidate.reword Statement.uncommented)) =
      (placements order).map fun p => (p.1, p.2.reword Statement.uncommented) := by
  induction order using List.reverseRecOn with
  | nil => rfl
  | append_singleton order c ih =>
    have settled (deferred : String → Bool) :
        settle deferred (c.reword Statement.uncommented) = (settle deferred c).uncommented := by
      have self : (c.reword Statement.uncommented).isSelfReferencing = c.isSelfReferencing := rfl
      rw [settle, settle, self]
      cases c.isSelfReferencing with
      | true => rfl
      | false => rfl
    have hidden : hidesShape (placements (order.map (Candidate.reword Statement.uncommented)))
        (c.reword Statement.uncommented) = hidesShape (placements order) c := by
      funext name
      rw [hidesShape, hidesShape, ih, defers_uncommented]
      rfl
    rw [List.map_append, List.map_singleton, placements_concat, placements_concat, List.map_append,
      ← ih, finish_eq, hidden, settled]
    rfl

theorem resolve_uncommented (cs : List Candidate) (limit : Nat) :
    (resolve (cs.map (Candidate.reword Statement.uncommented)) limit).placed =
      (resolve cs limit).placed.map fun p => (p.1, p.2.reword Statement.uncommented) := by
  have same := resolve_inStep Statement.uncommented cs limit
  dsimp only [resolve]
  rw [same.reworded, same.placed, same.chosen, placements_uncommented]

/-! ## Findings -/

theorem any_var_reword (name : String) :
    (cs.map (Candidate.reword f)).any (·.var == name) = cs.any (·.var == name) := by
  rw [List.any_map]
  rfl

theorem find?_reword (name : String) : (cs.map (Candidate.reword f)).find? (·.var == name) =
    (cs.find? (·.var == name)).map (Candidate.reword f) := by
  rw [List.find?_map]
  rfl

theorem successors_reword : successors (nodes.map (Candidate.reword f)) = successors nodes := by
  funext name
  rw [successors, successors, find?_reword]
  simp only [any_var_reword]
  cases nodes.find? (·.var == name) with
  | none => rfl
  | some c => rfl

theorem ofNodes_reword :
    ReachTable.ofNodes (nodes.map (Candidate.reword f)) = ReachTable.ofNodes nodes := by
  simp only [ReachTable.ofNodes, reachable, successors_reword, List.length_map, List.map_map]
  rfl

theorem missingNames_reword (c : Candidate) :
    missingNames (cs.map (Candidate.reword f)) (c.reword f) = missingNames cs c := by
  simp only [missingNames, any_var_reword]
  rfl

theorem isDoomed_reword (table : ReachTable) (name : String) :
    isDoomed (cs.map (Candidate.reword f)) (nodes.map (Candidate.reword f)) table name =
      isDoomed cs nodes table name := by
  simp only [isDoomed, List.any_map, Function.comp_def, isRoot, missingNames_reword]
  rfl

theorem causeOf_reword (table : ReachTable) (c : Candidate) :
    causeOf (cs.map (Candidate.reword f)) (nodes.map (Candidate.reword f)) table (c.reword f) =
      causeOf cs nodes table c := by
  have members : cycleMembers (nodes.map (Candidate.reword f)) table (c.reword f) =
      cycleMembers nodes table c := by
    rw [cycleMembers, List.filter_map, List.map_map]
    rfl
  have blocking : blockers (cs.map (Candidate.reword f)) (nodes.map (Candidate.reword f)) table
      (c.reword f) = blockers cs nodes table c := by
    simp only [blockers, any_var_reword, isDoomed_reword]
    rfl
  rw [causeOf, causeOf, members, blocking, missingNames_reword, isDoomed_reword]
  rfl

/-- What stays unplaced is explained without statements. -/
theorem classify_reword (names : List String) :
    classify (cs.map (Candidate.reword f)) names = classify cs names := by
  have nodes : (names.filterMap fun name =>
      (cs.map (Candidate.reword f)).find? (·.var == name)) =
        (names.filterMap fun name => cs.find? (·.var == name)).map (Candidate.reword f) := by
    rw [List.map_filterMap]
    simp only [find?_reword]
  simp only [classify, nodes, ofNodes_reword, List.map_map]
  refine List.map_congr_left fun c _ => ?_
  simp only [Function.comp_apply, causeOf_reword]
  rfl

end Resolution

end Schemata
