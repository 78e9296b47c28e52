import Schemata.Proofs.Expr.ObjectUse
import Schemata.Proofs.Generation.Order
import Schemata.Proofs.Resolution.Deferral

/-! Deferred validators as object schemas. Placing a validator replaces the lookups of single fields
of deferred ones, but keeps all else that only object schemas can do. So a source is safe exactly if
none of its placed types extends, picks from or otherwise derives from one that refers to itself. -/
namespace Schemata

/-- Whether a candidate takes one that refers to itself for an object schema. -/
def Resolution.takesSelfReferencing (cs : List Candidate) (c : Candidate) : Bool :=
  c.statement.init.objectUses.any fun name => (named cs name).any Candidate.isSelfReferencing

/-- No emitted constant takes a deferred validator for an object schema. -/
def Generation.ObjectSafe (g : Generation) : Prop :=
  ∀ s ∈ g.statements, ∀ name ∈ s.init.objectUses, g.outcome.placed.defers name = false

namespace Resolution

variable {cs : List Candidate} {c : Candidate} {p : String × Placed} {limit : Nat} {name : String}

theorem willDefer_eq (eager : ∀ c ∈ cs, c.statement.isDeferred = false) (name : String) :
    willDefer cs name = (named cs name).any Candidate.isSelfReferencing := by
  unfold willDefer
  cases found : named cs name with
  | none => rfl
  | some c =>
    rw [Option.any_some, Option.any_some, Candidate.defers, eager c (named_some found).1,
      Bool.or_false]

/-- The uses of a placed validator are those of its candidate, and the deferred ones among them
those that refer to themselves. -/
theorem placed_objectUses (distinct : Distinct cs) (listed : Listed cs)
    (eager : ∀ c ∈ cs, c.statement.isDeferred = false) (member : p ∈ (resolve cs limit).placed) :
    ∃ c ∈ cs, p.1 = c.var ∧ p.2.statement.init.objectUses = c.statement.init.objectUses ∧
      ∀ name ∈ c.statement.init.objectUses, (resolve cs limit).placed.defers name =
        (named cs name).any Candidate.isSelfReferencing := by
  obtain ⟨c, present, rfl, final⟩ := placed_settled distinct listed member
  refine ⟨c, present, rfl, ?_, fun name used => ?_⟩
  · dsimp only
    rw [settle_init (eager c present)]
    split
    · rw [Expr.objectUses_lazy, Expr.objectUses_eraseLookups]
    · exact Expr.objectUses_eraseLookups _ _
  · rw [← final name (Expr.objectUses_subset _ used), willDefer_eq eager]

theorem resolve_objectSafe_iff (distinct : Distinct cs) (listed : Listed cs)
    (eager : ∀ c ∈ cs, c.statement.isDeferred = false) :
    (∀ p ∈ (resolve cs limit).placed, ∀ name ∈ p.2.statement.init.objectUses,
        (resolve cs limit).placed.defers name = false) ↔
      ∀ c ∈ cs, c.var ∈ (resolve cs limit).placed.map (·.1) →
        takesSelfReferencing cs c = false := by
  constructor
  · intro safe c present placed
    obtain ⟨p, member, own⟩ := List.mem_map.mp placed
    obtain ⟨d, other, same, kept, deferred⟩ := placed_objectUses distinct listed eager member
    have found : named cs c.var = some d := own ▸ same ▸ named_of_mem distinct other
    obtain rfl := Option.some.inj (found.symm.trans (named_of_mem distinct present))
    rw [takesSelfReferencing, List.any_eq_false]
    intro name used
    rw [← deferred name used, safe p member name (kept ▸ used)]
    exact Bool.false_ne_true
  · intro free p member name used
    obtain ⟨c, present, same, kept, deferred⟩ := placed_objectUses distinct listed eager member
    rw [kept] at used
    have placed : c.var ∈ (resolve cs limit).placed.map (·.1) := same ▸ List.mem_map_of_mem member
    have avoids := List.any_eq_false.mp (free c present placed) name used
    rw [deferred name used]
    exact Bool.eq_false_iff.mpr avoids

end Resolution

namespace Generation

open Resolution

variable {options : Options} {source : String} {g : Generation}

/-- A generation is safe exactly if no placed type is derived from one that refers to itself. -/
theorem objectSafe_iff (generated : ofSource options source = .ok g) :
    g.ObjectSafe ↔ ∀ c ∈ g.candidates, c.var ∈ g.validatorNames →
      takesSelfReferencing g.candidates c = false := by
  obtain ⟨declarations, _, distinct, rfl⟩ := ofSource_ok generated
  have sound := candidatesOf_sound options declarations
  have listed : Listed (candidatesOf options declarations) := fun c present name mentioned =>
    (sound c present).listed name (Expr.mem_identifiers.mp mentioned)
  have eager : ∀ c ∈ candidatesOf options declarations, c.statement.isDeferred = false :=
    fun c present => (sound c present).eager
  exact List.forall_mem_map.trans (resolve_objectSafe_iff distinct listed eager)

/-- A type that refers to itself beside one that is derived from another type. -/
def apartSource : String :=
  "type Node = \x7b next?: Node \x7d;\ninterface Leaf \x7b v: string \x7d\n" ++
    "type Half = Partial<Leaf>;\n"

theorem objectSafe_apart : ∃ g, ofSource {} apartSource = .ok g ∧
    g.validatorNames = ["nodeSchema", "leafSchema", "halfSchema"] ∧ g.ObjectSafe := by
  have evaluated : (ofSource {} apartSource).map (fun g =>
      (g.validatorNames, g.candidates.map (takesSelfReferencing g.candidates))) =
        .ok (["nodeSchema", "leafSchema", "halfSchema"], [false, false, false]) := by
    decide +kernel
  obtain ⟨g, generated, shown⟩ := ofSource_of_map evaluated
  obtain ⟨names, free⟩ := Prod.mk.inj shown
  refine ⟨g, generated, names, (objectSafe_iff generated).mpr fun c present _ => ?_⟩
  have among : takesSelfReferencing g.candidates c ∈ [false, false, false] :=
    free ▸ List.mem_map_of_mem present
  simpa using among

/-- A type that refers to itself, with one that extends it and one that is derived from it. -/
def kinSource : String :=
  "interface Node \x7b next?: Node \x7d\ninterface Base \x7b v: string \x7d\n" ++
    "interface Leaf extends Base, Node \x7b w: string \x7d\ntype Half = Partial<Node>;\n"

/-- The fields of the deferred validator are passed to a call, and one of its methods is called. -/
theorem not_objectSafe_kin : ∃ g, ofSource {} kinSource = .ok g ∧
    g.statements.map (fun s => (s.name, s.init.objectUses)) =
      [("nodeSchema", []), ("baseSchema", []), ("leafSchema", ["baseSchema", "nodeSchema"]),
        ("halfSchema", ["nodeSchema"])] ∧
    g.outcome.placed.defers "nodeSchema" = true ∧ ¬ g.ObjectSafe := by
  have evaluated : (ofSource {} kinSource).map (fun g =>
      (g.statements.map (fun s => (s.name, s.init.objectUses)),
        g.outcome.placed.defers "nodeSchema")) =
      .ok ([("nodeSchema", []), ("baseSchema", []), ("leafSchema", ["baseSchema", "nodeSchema"]),
        ("halfSchema", ["nodeSchema"])], true) := by
    decide +kernel
  obtain ⟨g, generated, shown⟩ := ofSource_of_map evaluated
  obtain ⟨uses, deferred⟩ := Prod.mk.inj shown
  refine ⟨g, generated, uses, deferred, fun safe => ?_⟩
  have half : ("halfSchema", ["nodeSchema"]) ∈
      g.statements.map fun s => (s.name, s.init.objectUses) := by
    rw [uses]
    decide
  obtain ⟨s, emitted, entry⟩ := List.mem_map.mp half
  have used : "nodeSchema" ∈ s.init.objectUses :=
    (Prod.mk.inj entry).2 ▸ List.mem_singleton_self _
  exact Bool.noConfusion (deferred.symm.trans (safe s emitted "nodeSchema" used))

end Generation

end Schemata
