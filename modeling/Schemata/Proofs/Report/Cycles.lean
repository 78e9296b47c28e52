import Mathlib.Data.List.Cycle
import Schemata.Proofs.Resolution.Diagnosis
import Schemata.Report.Human

/-! The cycles that reports draw. All members of a cycle lead to one another, so each leads to the next
one drawn and the last to the first, if need be through others; but they are drawn in the order of
extraction, and whether the arrows are dependencies is a matter of that order. -/
namespace Schemata.Report

open Relation Resolution

/-- The arrows of a cycle are dependencies, and the last member depends on the first. -/
def ArrowsHold (cs : List Candidate) (f : Finding) : Prop :=
  ∀ members, f.cause = .cycle members → Cycle.Chain (Depends cs) members

instance (cs : List Candidate) : DecidableRel (Depends cs) :=
  fun _ _ => decidable_of_iff _ mem_successors

instance decidableChain {α : Type} (r : α → α → Prop) [DecidableRel r] :
    ∀ l : List α, Decidable (Cycle.Chain r l)
  | [] => isTrue (Cycle.Chain.nil r)
  | a :: l => decidable_of_iff _ (Cycle.chain_coe_cons r a l).symm

variable {cs : List Candidate} {name a b : String} {f : Finding} {members : List String}

theorem mem_component :
    a ∈ component cs name ↔ (named cs a).isSome ∧ Connected cs name a := by
  simp only [component, List.mem_map, List.mem_filter, decide_eq_true_eq, named_isSome]
  constructor
  · rintro ⟨c, ⟨member, connected⟩, rfl⟩
    exact ⟨⟨c, member, rfl⟩, connected⟩
  · rintro ⟨⟨c, member, rfl⟩, connected⟩
    exact ⟨c, ⟨member, connected⟩, rfl⟩

/-- Two members of a cycle lead to one another, and each to itself. -/
theorem reaches_of_mem_component (cyclic : OnCycle cs name) (first : a ∈ component cs name)
    (second : b ∈ component cs name) : Reaches cs a b := by
  obtain ⟨_, _, back⟩ := mem_component.mp first
  obtain ⟨_, forth, _⟩ := mem_component.mp second
  exact (TransGen.trans_right back (onCycle_iff.mp cyclic)).trans_left forth

theorem exists_depends_mem (cyclic : OnCycle cs name) (member : a ∈ component cs name) :
    ∃ b ∈ component cs name, Depends cs a b := by
  obtain ⟨_, forth, back⟩ := mem_component.mp member
  -- The way from the member back to itself begins with an edge and stays in the component.
  obtain ⟨b, edge, rest⟩ := TransGen.head'_iff.mp (reaches_of_mem_component cyclic member member)
  obtain ⟨_, _, _, isName⟩ := id edge
  exact ⟨b, mem_component.mpr ⟨isName, forth.tail edge, rest.trans back⟩, edge⟩

theorem chain_reaches (cyclic : OnCycle cs name) : Cycle.Chain (Reaches cs) (component cs name) :=
  Cycle.chain_of_pairwise fun _ first _ second => reaches_of_mem_component cyclic first second

/-- Of two members each depends on the other one. -/
theorem chain_of_pair (cyclic : OnCycle cs name) (pair : (component cs name).length = 2) :
    Cycle.Chain (Depends cs) (component cs name) := by
  obtain ⟨x, y, form⟩ := List.length_eq_two.mp pair
  have next (a : String) (member : a ∈ [x, y]) : ∃ b ∈ [x, y], b ≠ a ∧ Depends cs a b := by
    obtain ⟨b, other, edge⟩ := exists_depends_mem cyclic (form ▸ member)
    exact ⟨b, form ▸ other, edge.ne.symm, edge⟩
  have forth := next x (by simp)
  have back := next y (by simp)
  simp only [List.mem_cons, List.not_mem_nil, or_false, exists_eq_or_imp, exists_eq_left, ne_eq,
    not_true_eq_false, false_and, false_or] at forth back
  rw [form, Cycle.chain_coe_cons]
  simp [forth.2, back.2]

theorem reported_component (distinct : Distinct cs) {limit : Nat}
    (listed : f ∈ classify cs (resolve cs limit).unresolved) (reported : f.cause = .cycle members) :
    ∃ c ∈ cs, OnCycle cs c.var ∧ members = component cs c.var := by
  rw [classify_unplaced distinct] at listed
  obtain ⟨c, waiting, rfl⟩ := List.mem_map.mp listed
  change diagnosis cs c = .cycle members at reported
  unfold diagnosis at reported
  split at reported
  · rename_i cyclic
    cases reported
    exact ⟨c, (mem_unplaced.mp waiting).1, cyclic, rfl⟩
  · split at reported
    · contradiction
    · split at reported <;> contradiction

theorem component_reported (distinct : Distinct cs) (limit : Nat) {c : Candidate} (member : c ∈ cs)
    (cyclic : OnCycle cs c.var) : ∃ f ∈ classify cs (resolve cs limit).unresolved,
      f.cause = .cycle (component cs c.var) := by
  refine ⟨finding cs c, ?_, if_pos cyclic⟩
  rw [classify_unplaced distinct]
  exact List.mem_map_of_mem
    (mem_unplaced.mpr ⟨member, not_rankedWithin_of_unranked cyclic.unranked⟩)

theorem describe_cycle (reported : f.cause = .cycle members) :
    describe f = f.var ++ ": cycle through " ++ " -> ".intercalate members := by
  have words : ": cycle through " = ": " ++ "cycle through " := by decide
  rw [describe, reported, words]
  simp only [String.append_assoc]

/-- The members of a cycle are drawn with arrows, each of which leads to the next one, and directly if
there are two. All arrows are dependencies exactly if every component with a cycle is extracted in an
order in which each member depends on the next one. -/
theorem arrows_hold_iff (distinct : Distinct cs) (limit : Nat) :
    (∀ f ∈ classify cs (resolve cs limit).unresolved, ∀ members, f.cause = .cycle members →
      describe f = f.var ++ ": cycle through " ++ " -> ".intercalate members ∧
      Cycle.Chain (Reaches cs) members ∧
      (members.length = 2 → Cycle.Chain (Depends cs) members)) ∧
    ((∀ f ∈ classify cs (resolve cs limit).unresolved, ArrowsHold cs f) ↔
      ∀ c ∈ cs, OnCycle cs c.var → Cycle.Chain (Depends cs) (component cs c.var)) := by
  refine ⟨fun f listed members reported => ?_, fun hold c member cyclic => ?_,
    fun chained f listed members reported => ?_⟩
  · obtain ⟨c, _, cyclic, rfl⟩ := reported_component distinct listed reported
    exact ⟨describe_cycle reported, chain_reaches cyclic, chain_of_pair cyclic⟩
  · obtain ⟨f, listed, reported⟩ := component_reported distinct limit member cyclic
    exact hold f listed _ reported
  · obtain ⟨c, member, cyclic, rfl⟩ := reported_component distinct listed reported
    exact chained c member cyclic

/-- Three candidates on a cycle, each in front of the one that it depends on, but for the last. -/
def triangle : List Candidate :=
  let candidate (var dependency : String) : Candidate :=
    { type := var, var, dependencies := [dependency],
      statement := { name := var, init := .ident dependency } }
  [candidate "a" "b", candidate "b" "c", candidate "c" "a"]

theorem arrows_hold_triangle : Distinct triangle ∧
    component triangle "a" = ["a", "b", "c"] ∧
    ∀ f ∈ classify triangle (resolve triangle 10).unresolved, ArrowsHold triangle f := by
  have distinct : Distinct triangle := by decide
  exact ⟨distinct, by decide, (arrows_hold_iff distinct 10).2.mpr (by decide)⟩

/-- From last to first, each of the three is drawn in front of one that it does not depend on. -/
theorem not_arrowsHold_triangle : Distinct triangle.reverse ∧
    ∃ f ∈ classify triangle.reverse (resolve triangle.reverse 10).unresolved,
      describe f = "c: cycle through c -> b -> a" ∧ f.cause = .cycle ["c", "b", "a"] ∧
      ¬ Depends triangle.reverse "c" "b" ∧ ¬ ArrowsHold triangle.reverse f := by
  have distinct : Distinct triangle.reverse := by decide
  have listed : ⟨"c", "c", .cycle ["c", "b", "a"]⟩ ∈
      classify triangle.reverse (resolve triangle.reverse 10).unresolved := by
    rw [classify_unplaced distinct]
    decide
  have apart : ¬ Cycle.Chain (Depends triangle.reverse) ["c", "b", "a"] := by decide
  exact ⟨distinct, _, listed, by decide, rfl, by decide, fun hold => apart (hold _ rfl)⟩

end Schemata.Report
