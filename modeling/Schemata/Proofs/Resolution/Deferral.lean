import Schemata.Proofs.Expr.Parts
import Schemata.Proofs.Resolution.Order

/-! Which lookups of fields are replaced in placed validators. What a candidate mentions is placed
in front of it or is the candidate itself, so at its place it is already settled which of these
validators are deferred; later placements and later rounds change nothing for it. -/
namespace Schemata

/-- Whether the validator is deferred wherever it is placed. -/
def Candidate.defers (c : Candidate) : Bool := c.isSelfReferencing || c.statement.isDeferred

theorem Statement.isDeferred_defer (s : Statement) (reference : String) :
    (s.defer reference).isDeferred = true := by
  unfold defer
  cases lazy : s.isDeferred with
  | true => exact lazy
  | false => rfl

namespace Resolution

/-- Every candidate depends on all that its initializer mentions. -/
abbrev Listed (cs : List Candidate) : Prop :=
  ∀ c ∈ cs, c.statement.init.identifiers ⊆ c.dependencies

/-- Whether a name is that of a candidate whose validator is deferred once it is placed. -/
def willDefer (cs : List Candidate) (name : String) : Bool :=
  (named cs name).any Candidate.defers

variable {cs : List Candidate} {c : Candidate} {before after placed : Placements}
  {p : String × Placed} {deferred other : String → Bool} {limit : Nat} {name : String}

theorem settle_congr (same : ∀ name ∈ c.statement.init.mentions, deferred name = other name) :
    settle deferred c = settle other c := by
  unfold settle
  rw [Expr.eraseLookups_congr same]

theorem settle_isDeferred : (settle deferred c).isDeferred = c.defers := by
  unfold settle Candidate.defers
  cases c.isSelfReferencing with
  | true => exact Statement.isDeferred_defer _ _
  | false => exact Expr.isZod_eraseLookups (by decide) _

theorem lookup_of_name (present : name ∈ placed.map (·.1)) : ∃ p, placed.lookup name = some p := by
  obtain ⟨entry, member, rfl⟩ := List.mem_map.mp present
  cases found : placed.lookup entry.1 with
  | some p => exact ⟨p, rfl⟩
  | none => exact absurd rfl (bne_iff_ne.mp (List.lookup_eq_none_iff.mp found entry member))

/-- The deferred validators of a stage are those of its names that end up deferred. -/
theorem defers_front (distinct : Distinct cs)
    (split : (resolve cs limit).placed = before ++ after) (present : name ∈ before.map (·.1)) :
    before.defers name = willDefer cs name := by
  obtain ⟨q, found⟩ := lookup_of_name present
  obtain ⟨front, back, rfl, _⟩ := List.lookup_eq_some_iff.mp found
  rw [List.append_assoc, List.cons_append] at split
  obtain ⟨c, listed, entry, _⟩ := placed_split distinct split
  obtain ⟨rfl, rfl⟩ := Prod.mk.inj entry
  rw [Placements.defers, found, willDefer, named_of_mem distinct listed, Option.any_some,
    Option.any_some, finish_eq, settle_isDeferred]

/-- Among the names that a candidate mentions, those hidden at its place and those deferred in the
end are the same. -/
theorem placed_settled (distinct : Distinct cs) (listed : Listed cs)
    (member : p ∈ (resolve cs limit).placed) :
    ∃ c ∈ cs, p = (c.var, ⟨c.type, c.parameters, settle (willDefer cs) c⟩) ∧
      ∀ name ∈ c.statement.init.mentions,
        willDefer cs name = (resolve cs limit).placed.defers name := by
  obtain ⟨before, after, split⟩ := List.append_of_mem member
  obtain ⟨c, present, rfl, foreign⟩ := placed_split distinct split
  -- Nothing else is mentioned than the candidate itself and what stands in front of it.
  have known : ∀ name ∈ c.statement.init.mentions,
      name = c.var ∧ c.isSelfReferencing = true ∨ name ≠ c.var ∧ name ∈ before.map (·.1) := by
    intro name mentioned
    have dependency := listed c present (Expr.mem_identifiers.mpr mentioned)
    by_cases same : name = c.var
    · exact .inl ⟨same, decide_eq_true (same ▸ dependency)⟩
    · exact .inr ⟨same, foreign name (List.mem_filter.mpr ⟨dependency, decide_eq_true same⟩)⟩
  have hidden : ∀ name ∈ c.statement.init.mentions,
      hidesShape before c name = willDefer cs name := by
    intro name mentioned
    rcases known name mentioned with ⟨rfl, self⟩ | ⟨differs, front⟩
    · rw [hidesShape, willDefer, named_of_mem distinct present, Option.any_some, Candidate.defers,
        self, beq_self_eq_true]
      rfl
    · rw [hidesShape, beq_eq_false_iff_ne.mpr differs, Bool.and_false, Bool.false_or,
        defers_front distinct split front]
  refine ⟨c, present, by rw [finish_eq, settle_congr hidden], fun name mentioned => ?_⟩
  refine (defers_front distinct (List.append_nil _).symm ?_).symm
  rw [split, List.map_append, List.map_cons]
  rcases known name mentioned with ⟨rfl, _⟩ | ⟨_, front⟩
  · exact List.mem_append_right _ List.mem_cons_self
  · exact List.mem_append_left _ front

/-- Each placed validator is its initializer without the lookups into the validators that are
deferred when all is placed, and with all others. -/
theorem erased_by_final_state (distinct : Distinct cs) (listed : Listed cs)
    (eager : ∀ c ∈ cs, c.statement.isDeferred = false) (limit : Nat) :
    ∀ p ∈ (resolve cs limit).placed, ∃ c ∈ cs, p.1 = c.var ∧
      p.2.statement.init =
        (if c.isSelfReferencing then
          .zod "lazy" [.arrow (c.statement.init.eraseLookups (resolve cs limit).placed.defers)]
        else c.statement.init.eraseLookups (resolve cs limit).placed.defers) ∧
      p.2.statement.init.lookups =
        c.statement.init.lookups.filter fun field =>
          !(resolve cs limit).placed.defers field.1 := by
  intro p member
  obtain ⟨c, present, rfl, final⟩ := placed_settled distinct listed member
  have init : (settle (willDefer cs) c).init =
      if c.isSelfReferencing then
        .zod "lazy" [.arrow (c.statement.init.eraseLookups (resolve cs limit).placed.defers)]
      else c.statement.init.eraseLookups (resolve cs limit).placed.defers := by
    rw [settle_congr final, settle_init (eager c present)]
  refine ⟨c, present, rfl, init, ?_⟩
  rw [← Expr.lookups_eraseLookups]
  dsimp only
  rw [init]
  split
  · exact Expr.lookups_lazy _
  · rfl

/-- One validator that mentions itself, and another one that looks up fields of it. -/
def shelf : List Candidate :=
  let field (name key : String) : Expr := .member (.member (.ident name) Expr.shapeName) key
  let candidate (var : String) (fields : List (String × String)) : Candidate :=
    { type := var, var, dependencies := fields.map (·.1)
      statement := { name := var, init := .array (fields.map fun f => field f.1 f.2) } }
  [candidate "reader" [("shelf", "top"), ("book", "title")],
    candidate "shelf" [("book", "title"), ("shelf", "top")], candidate "book" []]

theorem shelf_erased_by_final_state : Distinct shelf ∧ Listed shelf ∧
    (∀ c ∈ shelf, c.statement.isDeferred = false) ∧
    (resolve shelf 3).placed.defers "shelf" = true ∧
    ∃ p ∈ (resolve shelf 3).placed, p.1 = "reader" ∧
      p.2.statement.init.lookups = [("book", "title")] := by
  have distinct : Distinct shelf := by decide
  have listed : Listed shelf := by decide
  have eager : ∀ c ∈ shelf, c.statement.isDeferred = false := by decide
  refine ⟨distinct, listed, eager, by decide, ?_⟩
  obtain ⟨p, member, name⟩ : ∃ p ∈ (resolve shelf 3).placed, p.1 = "reader" :=
    List.mem_map.mp (by decide)
  obtain ⟨c, present, same, _, lookups⟩ := erased_by_final_state distinct listed eager 3 p member
  have found : named shelf "reader" = some c := name ▸ same ▸ named_of_mem distinct present
  have before : (named shelf "reader").map (·.statement.init.lookups) =
      some [("shelf", "top"), ("book", "title")] := by decide
  rw [found, Option.map_some, Option.some.injEq] at before
  refine ⟨p, member, name, ?_⟩
  rw [lookups, before]
  decide

end Resolution

end Schemata
