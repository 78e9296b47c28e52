import Schemata.Generation
import Schemata.Proofs.Resolution.Order

/-! The validators of a source in the order in which they are emitted. A generation that succeeds
has candidates of different names, so their resolution gives constants that can be evaluated one
after the other. -/
namespace Schemata.Generation

open Resolution

/-- The emitted constants in order. -/
def statements (g : Generation) : List Statement := g.outcome.placed.map fun p => p.2.statement

variable {options : Options} {source : String} {g : Generation}

theorem collision?_eq_none {earlier cs : List Candidate} (none : collision? earlier cs = none) :
    Distinct cs ∧ ∀ c ∈ cs, ∀ e ∈ earlier, e.var ≠ c.var := by
  induction cs generalizing earlier with
  | nil => exact ⟨List.nodup_nil, fun _ member => absurd member List.not_mem_nil⟩
  | cons c rest ih =>
    rw [collision?] at none
    split at none
    · contradiction
    · rename_i fresh
      obtain ⟨distinct, apart⟩ := ih none
      have first : ∀ e ∈ earlier, e.var ≠ c.var := by
        intro e member same
        exact List.find?_eq_none.mp fresh e member (beq_iff_eq.mpr same)
      refine ⟨List.nodup_cons.mpr ⟨fun repeated => ?_, distinct⟩, ?_⟩
      · obtain ⟨other, later, same⟩ := List.mem_map.mp repeated
        exact apart other later c List.mem_cons_self same.symm
      · intro other member e before
        rcases List.mem_cons.mp member with rfl | later
        · exact first e before
        · exact apart other later e (List.mem_cons_of_mem _ before)

/-- What a successful generation is made of. -/
theorem ofSource_ok (generated : ofSource options source = .ok g) :
    ∃ declarations, TypeScript.Source.parse options.elements source = .ok declarations ∧
      Distinct (candidatesOf options declarations) ∧
      g = ofCandidates (candidatesOf options declarations) options.maxRounds := by
  unfold ofSource at generated
  cases parsed : TypeScript.Source.parse options.elements source with
  | error failure => simp [parsed, Except.mapError, bind, Except.bind] at generated
  | ok declarations =>
    simp only [parsed, Except.mapError, bind, Except.bind] at generated
    split at generated
    · contradiction
    · rename_i none
      exact ⟨declarations, rfl, (collision?_eq_none none).1, (Except.ok.inj generated).symm⟩

theorem ok_of_map {ε α β : Type} {result : Except ε α} {view : α → β} {b : β}
    (evaluated : result.map view = .ok b) : ∃ a, result = .ok a ∧ view a = b := by
  cases result with
  | error failure => contradiction
  | ok a => exact ⟨a, rfl, Except.ok.inj evaluated⟩

/-- What an evaluation says of a source. -/
theorem ofSource_of_map {α : Type} {view : Generation → α} {a : α}
    (evaluated : (ofSource options source).map view = .ok a) :
    ∃ g, ofSource options source = .ok g ∧ view g = a := ok_of_map evaluated

theorem candidatesOf_sound (options : Options) (declarations : List TypeScript.Declaration) :
    ∀ c ∈ candidatesOf options declarations, c.Sound := by
  intro c member
  obtain ⟨d, _, rfl⟩ := List.mem_map.mp member
  exact Compilation.candidate_sound _ d

/-- No validator is used before it is defined: each mentions only those in front of it and itself,
the latter in a body that is evaluated later, so every constant that evaluation reads has its
value. -/
theorem validators_defined_before_use (generated : ofSource options source = .ok g) :
    DefinedBeforeUse g.statements ∧ Loads [] g.statements := by
  obtain ⟨declarations, _, distinct, rfl⟩ := ofSource_ok generated
  have ordered := resolve_defined_before_use distinct (candidatesOf_sound options declarations)
    options.maxRounds
  exact ⟨ordered, ordered.loads⟩

/-- A type that mentions itself and a later one, and looks up a field of itself. -/
def nodeSource : String :=
  "type Node = \x7b next?: Node; id: Node[\"key\"]; leaf: Leaf \x7d;\n" ++
    "interface Leaf \x7b v: string \x7d\n"

theorem validators_defined_before_use_node : ∃ g, ofSource {} nodeSource = .ok g ∧
    g.statements.map (·.name) = ["leafSchema", "nodeSchema"] ∧
    DefinedBeforeUse g.statements ∧ Loads [] g.statements := by
  have names : (ofSource {} nodeSource).map (fun g => g.statements.map (·.name)) =
      .ok ["leafSchema", "nodeSchema"] := by decide +kernel
  cases generated : ofSource {} nodeSource with
  | error failure =>
    rw [generated] at names
    contradiction
  | ok g =>
    rw [generated] at names
    exact ⟨g, rfl, Except.ok.inj names, validators_defined_before_use generated⟩

end Schemata.Generation
