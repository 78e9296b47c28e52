import Schemata.Modules.Validators
import Schemata.Proofs.Expr.Marks
import Schemata.Proofs.Resolution.Order
import Schemata.Proofs.Resolution.Reachability

/-! Which declarations a module of validators imports. Rounds keep the candidates that they place,
and the imports are read off these at the end: the types of those that refer to themselves and of
those that need a value, in order and each once. -/
namespace Schemata.Resolution

variable {cs : List Candidate} {c : Candidate} {limit : Nat} {names : List String} {type : String}
  {p : String × Placed} {deferred : String → Bool}

theorem eraseDups_sublist (names : List String) : names.eraseDups.Sublist names := by
  induction size : names.length using Nat.strong_induction_on generalizing names with
  | _ n ih =>
    cases names with
    | nil => exact List.Sublist.slnil
    | cons name rest =>
      have shorter := List.length_filter_le (fun other => !other == name) rest
      rw [List.length_cons] at size
      rw [List.eraseDups_cons]
      exact ((ih _ (by omega) _ rfl).trans List.filter_sublist).cons_cons name

theorem mem_sortedNames {name : String} : name ∈ sortedNames names ↔ name ∈ names := by
  rw [sortedNames, List.mem_eraseDups, List.mem_mergeSort]

/-- Sorted names increase, so each stands there once. -/
theorem sortedNames_increasing (names : List String) : (sortedNames names).Pairwise (· < ·) := by
  have ordered : (names.mergeSort fun a b => decide (a ≤ b)).Pairwise
      fun a b => decide (a ≤ b) = true := by
    refine List.pairwise_mergeSort ?_ ?_ names
    · intro a b c first second
      rw [decide_eq_true_eq] at first second ⊢
      exact String.le_trans first second
    · intro a b
      rw [Bool.or_eq_true, decide_eq_true_eq, decide_eq_true_eq]
      exact String.le_total a b
  have weakly := ordered.sublist (eraseDups_sublist _)
  refine (weakly.and (nodup_eraseDups _)).imp fun {a b} ⟨below, differs⟩ => ?_
  by_contra above
  exact differs (String.le_antisymm (of_decide_eq_true below) (String.not_lt.mp above))

/-- Whether the module of a placed candidate needs its declaration. -/
def needsImport (c : Candidate) : Bool := c.isSelfReferencing || c.needsValue

theorem resolve_typeImports (distinct : Distinct cs) (limit : Nat) :
    (resolve cs limit).typeImports =
      sortedNames (((rankOrder cs limit).filter (·.isSelfReferencing)).map (·.type)) := by
  rw [resolve, (after_resolution distinct limit).chosen, rankOrder_needed]

theorem resolve_valueImports (distinct : Distinct cs) (limit : Nat) :
    (resolve cs limit).valueImports =
      sortedNames (((rankOrder cs limit).filter (·.needsValue)).map (·.type)) := by
  rw [resolve, (after_resolution distinct limit).chosen, rankOrder_needed]

theorem mem_placed_iff (distinct : Distinct cs) (listed : c ∈ cs) :
    c.var ∈ (resolve cs limit).placed.map (·.1) ↔ c ∈ rankOrder cs limit := by
  rw [resolve_names distinct, name_mem_rankOrder, mem_rankOrder, and_iff_right listed]

theorem mem_typeImports (distinct : Distinct cs) :
    type ∈ (resolve cs limit).typeImports ↔
      ∃ c ∈ rankOrder cs limit, c.isSelfReferencing = true ∧ c.type = type := by
  rw [resolve_typeImports distinct, mem_sortedNames]
  simp only [List.mem_map, List.mem_filter, and_assoc]

/-- Exactly the placed candidates that need it have their declaration imported. -/
theorem mem_importedNames (distinct : Distinct cs) :
    type ∈ Modules.importedNames (resolve cs limit) ↔
      ∃ c ∈ rankOrder cs limit, needsImport c = true ∧ c.type = type := by
  rw [Modules.importedNames, mem_sortedNames, resolve_typeImports distinct,
    resolve_valueImports distinct, List.mem_append, mem_sortedNames, mem_sortedNames]
  simp only [List.mem_map, List.mem_filter, needsImport, Bool.or_eq_true, and_assoc, or_and_right,
    and_or_left, exists_or]

theorem placed_entry (distinct : Distinct cs) (member : p ∈ (resolve cs limit).placed) :
    ∃ c ∈ rankOrder cs limit, ∃ before,
      p = (c.var, ⟨c.type, c.parameters, finish before c⟩) := by
  obtain ⟨before, after, split⟩ := List.append_of_mem member
  obtain ⟨c, listed, rfl, _⟩ := placed_split distinct split
  have placed := (mem_placed_iff distinct listed).mp (List.mem_map_of_mem member)
  exact ⟨c, placed, before, rfl⟩

theorem entry_placed (distinct : Distinct cs) (ranked : c ∈ rankOrder cs limit) :
    ∃ before, (c.var, ⟨c.type, c.parameters, finish before c⟩) ∈ (resolve cs limit).placed := by
  have listed := (mem_rankOrder.mp ranked).1
  obtain ⟨p, member, name⟩ := List.mem_map.mp ((mem_placed_iff distinct listed).mpr ranked)
  obtain ⟨other, also, before, rfl⟩ := placed_entry distinct member
  have found := named_of_mem distinct (mem_rankOrder.mp also).1
  rw [show other.var = c.var from name, named_of_mem distinct listed] at found
  obtain rfl := Option.some.inj found
  exact ⟨before, member⟩

theorem unresolved_not_ranked (distinct : Distinct cs) (ranked : c ∈ rankOrder cs limit) :
    c.var ∉ (resolve cs limit).unresolved := by
  rw [resolve_unresolved distinct]
  intro left
  obtain ⟨other, waiting, same⟩ := List.mem_map.mp left
  exact (mem_unplaced.mp waiting).2 (same ▸ (mem_rankOrder.mp ranked).2)

/-- A constant whose body is evaluated lazily, wrapped once, and which has the schema type of a
reference. -/
structure WrappedOnce (s : Statement) (reference : String) : Prop where
  ascription : s.ascription = some (Statement.deferredAscription reference)
  init : ∃ body, s.init = .zod "lazy" [.arrow body] ∧ body.isZod "lazy" = false

theorem settle_wrappedOnce (eager : c.statement.isDeferred = false)
    (self : c.isSelfReferencing = true) : WrappedOnce (settle deferred c) c.reference where
  ascription := by
    rw [settle, if_pos self]
    rfl
  init := by
    refine ⟨c.statement.init.eraseLookups deferred, ?_, ?_⟩
    · rw [settle_init eager, if_pos self]
    · exact (Expr.isZod_eraseLookups (by decide) _).trans eager

theorem settle_ascription_none (bare : c.statement.ascription = none)
    (free : c.isSelfReferencing = false) : (settle deferred c).ascription = none := by
  rw [settle, free]
  exact bare

theorem settle_enumNames (eager : c.statement.isDeferred = false) :
    (settle deferred c).init.enumNames = c.statement.init.enumNames := by
  rw [settle_init eager]
  split
  · rw [Expr.enumNames_lazy, Expr.enumNames_eraseLookups]
  · exact Expr.enumNames_eraseLookups _ _

end Schemata.Resolution
