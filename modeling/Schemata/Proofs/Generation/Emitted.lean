import Schemata.Proofs.Generation.Bindings

/-! The constants of a generation and the declarations that they come from. Each declaration that is
emitted has one constant, with the initializer that is compiled from it less the lookups into deferred
validators, and there are no other constants. -/
namespace Schemata

open TypeScript

namespace Resolution

variable {cs : List Candidate} {p : String × Placed} {limit : Nat}

/-- The initializer of a placed candidate, by what is deferred when all is placed. -/
theorem placed_init (distinct : Distinct cs) (sound : ∀ c ∈ cs, c.Sound)
    (member : p ∈ (resolve cs limit).placed) : ∃ c ∈ cs, p.1 = c.var ∧
      p.2.statement.name = c.var ∧ p.2.statement.init =
        if c.isSelfReferencing then
          .zod "lazy" [.arrow (c.statement.init.eraseLookups (resolve cs limit).placed.defers)]
        else c.statement.init.eraseLookups (resolve cs limit).placed.defers := by
  have listed : Listed cs := fun c present name mentioned =>
    (sound c present).listed name (Expr.mem_identifiers.mp mentioned)
  have named := placed_names distinct sound member
  obtain ⟨c, present, rfl, final⟩ := placed_settled distinct listed member
  refine ⟨c, present, rfl, named, ?_⟩
  rw [settle_congr final, settle_init (sound c present).eager]

end Resolution

namespace Generation

open Resolution Compilation

/-- The initializer of a declaration's constant. -/
def emittedInit (options : Options) (g : Generation) (d : Declaration) : Expr :=
  let kept := (compileDeclaration options.compilation d).eraseLookups g.outcome.placed.defers
  if (candidate options.compilation d).isSelfReferencing then .zod "lazy" [.arrow kept]
  else kept

variable {options : Options} {source : String} {g : Generation} {d e : Declaration}

theorem declares_unique (generated : ofSource options source = .ok g)
    (first : Declares options source d) (second : Declares options source e)
    (same : options.naming d.name = options.naming e.name) : d = e := by
  obtain ⟨declarations, parsed, distinct, _⟩ := ofSource_ok generated
  obtain ⟨others, again, member, accepted⟩ := first
  obtain rfl := Except.ok.inj (parsed.symm.trans again)
  obtain ⟨more, also, present, passes⟩ := second
  obtain rfl := Except.ok.inj (parsed.symm.trans also)
  unfold Distinct candidatesOf at distinct
  rw [List.map_map] at distinct
  exact List.inj_on_of_nodup_map distinct (List.mem_filter.mpr ⟨member, accepted⟩)
    (List.mem_filter.mpr ⟨present, passes⟩) same

theorem statement_init (generated : ofSource options source = .ok g) {s : Statement}
    (emitted : s ∈ g.statements) : ∃ d, Emitted options source g d ∧
      s.name = options.naming d.name ∧ s.init = emittedInit options g d := by
  have listed := mem_candidates generated
  obtain ⟨p, member, rfl⟩ := List.mem_map.mp emitted
  obtain ⟨declarations, _, distinct, rfl⟩ := ofSource_ok generated
  obtain ⟨c, present, own, named, init⟩ :=
    placed_init distinct (candidatesOf_sound options declarations) member
  obtain ⟨d, declares, rfl⟩ := (listed c).mp present
  have placed : p.1 ∈ (resolve (candidatesOf options declarations) options.maxRounds).placed.map
      (·.1) := List.mem_map_of_mem member
  rw [own] at placed
  exact ⟨d, ⟨declares, placed⟩, named, init⟩

theorem init_of_emitted (generated : ofSource options source = .ok g)
    (emitted : Emitted options source g d) : ∃ s ∈ g.statements, s.name = options.naming d.name ∧
      s.init = emittedInit options g d := by
  obtain ⟨p, member, own⟩ := List.mem_map.mp emitted.placed
  have listed : p.2.statement ∈ g.statements := List.mem_map_of_mem member
  have named : p.2.statement.name = options.naming d.name := by
    obtain ⟨declarations, _, distinct, rfl⟩ := ofSource_ok generated
    exact (placed_names distinct (candidatesOf_sound options declarations) member).trans own
  obtain ⟨e, other, also, init⟩ := statement_init generated listed
  obtain rfl := declares_unique generated emitted.declares other.declares (named.symm.trans also)
  exact ⟨p.2.statement, listed, named, init⟩

end Generation

end Schemata
