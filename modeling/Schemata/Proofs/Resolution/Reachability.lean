import Mathlib.Data.List.Nodup
import Mathlib.Logic.Relation
import Schemata.Proofs.Resolution.Rank
import Schemata.Resolution.Reachability

/-! The search along dependencies finds exactly what can be reached. Its stack holds the names that
are seen but whose dependencies are not; the count of all names leaves enough steps to empty it. -/
namespace Schemata.Resolution

open Relation

/-- A candidate's dependency on another one. -/
def Depends (cs : List Candidate) (a b : String) : Prop :=
  ∃ c, named cs a = some c ∧ b ∈ c.foreign ∧ (named cs b).isSome

/-- There is a path of at least one dependency. -/
abbrev Reaches (cs : List Candidate) : String → String → Prop := TransGen (Depends cs)

theorem nodup_eraseDups (names : List String) : names.eraseDups.Nodup := by
  induction h : names.length using Nat.strong_induction_on generalizing names with
  | _ size ih =>
    cases names with
    | nil => exact List.nodup_nil
    | cons name rest =>
      rw [List.eraseDups_cons, List.nodup_cons, List.mem_eraseDups, List.mem_filter]
      refine ⟨fun present => by simp at present, ih _ ?_ _ rfl⟩
      have shorter := List.length_filter_le (fun other => !other == name) rest
      rw [List.length_cons] at h
      omega

/-- What holds in the course of a search for what follows `source` among the names of `pool`. -/
structure Search (next : String → List String) (source : String) (pool : List String)
    (steps : Nat) (stack seen : List String) : Prop where
  reached : ∀ name ∈ seen, TransGen (fun a b => b ∈ next a) source name
  started : next source ⊆ seen
  expanded : ∀ name ∈ seen, name ∉ stack → next name ⊆ seen
  stacked : stack ⊆ seen
  distinct : seen.Nodup
  inside : seen ⊆ pool
  enough : stack.length + pool.length ≤ steps + seen.length

variable {next : String → List String} {pool stack seen : List String} {steps : Nat}
  {cs : List Candidate} {source name a b : String}

theorem Search.start (bounded : ∀ name, next name ⊆ pool) :
    Search next source pool (pool.length + 1) (next source).eraseDups
      (next source).eraseDups where
  reached name member := .single (List.mem_eraseDups.mp member)
  started _ member := List.mem_eraseDups.mpr member
  expanded _ member absent := absurd member absent
  stacked _ member := member
  distinct := nodup_eraseDups _
  inside _ member := bounded source (List.mem_eraseDups.mp member)
  enough := by omega

/-- The names that a step adds. -/
def fresh (next : String → List String) (seen : List String) (name : String) : List String :=
  ((next name).filter (· ∉ seen)).eraseDups

theorem mem_fresh : b ∈ fresh next seen name ↔ b ∈ next name ∧ b ∉ seen := by
  rw [fresh, List.mem_eraseDups, List.mem_filter, decide_eq_true_eq]

theorem Search.step (search : Search next source pool (steps + 1) (name :: stack) seen)
    (bounded : ∀ name, next name ⊆ pool) :
    Search next source pool steps (fresh next seen name ++ stack)
      (seen ++ fresh next seen name) where
  reached other member := by
    rcases List.mem_append.mp member with old | new
    · exact search.reached other old
    · exact (search.reached name (search.stacked List.mem_cons_self)).tail (mem_fresh.mp new).1
  started := fun _ member => List.mem_append_left _ (search.started member)
  expanded other member absent := by
    rw [List.mem_append, not_or] at absent
    have old : other ∈ seen := (List.mem_append.mp member).resolve_right absent.1
    intro following present
    by_cases known : following ∈ seen
    · exact List.mem_append_left _ known
    · by_cases same : other = name
      · subst other
        exact List.mem_append_right _ (mem_fresh.mpr ⟨present, known⟩)
      · have unstacked : other ∉ name :: stack := by
          rw [List.mem_cons, not_or]
          exact ⟨same, absent.2⟩
        exact absurd (search.expanded other old unstacked present) known
  stacked := by
    intro other member
    rcases List.mem_append.mp member with new | old
    · exact List.mem_append_right _ new
    · exact List.mem_append_left _ (search.stacked (List.mem_cons_of_mem _ old))
  distinct := by
    refine List.nodup_append.mpr ⟨search.distinct, nodup_eraseDups _, ?_⟩
    rintro other old _ new rfl
    exact (mem_fresh.mp new).2 old
  inside := by
    intro other member
    rcases List.mem_append.mp member with old | new
    · exact search.inside old
    · exact bounded name (mem_fresh.mp new).1
  enough := by
    have := search.enough
    simp only [List.length_append, List.length_cons] at this ⊢
    omega

/-- When the stack is empty, everything that can be reached is seen. -/
theorem Search.complete (search : Search next source pool steps [] seen) :
    name ∈ seen ↔ TransGen (fun a b => b ∈ next a) source name := by
  refine ⟨search.reached name, fun path => ?_⟩
  induction path with
  | single first => exact search.started first
  | tail _ last ih => exact search.expanded _ ih List.not_mem_nil last

theorem Search.mem_explore (search : Search next source pool steps stack seen)
    (bounded : ∀ name, next name ⊆ pool) :
    name ∈ explore next steps stack seen ↔ TransGen (fun a b => b ∈ next a) source name := by
  induction steps generalizing stack seen with
  | zero =>
    have few := search.distinct.length_le_of_subset search.inside
    have enough := search.enough
    obtain rfl : stack = [] := List.eq_nil_of_length_eq_zero (by omega)
    exact search.complete
  | succ steps ih =>
    cases stack with
    | nil => exact search.complete
    | cons first rest => exact ih (search.step bounded)

theorem mem_successors : b ∈ successors cs a ↔ Depends cs a b := by
  have isName : (cs.any (·.var == b)) = true ↔ (named cs b).isSome := by
    rw [named, List.find?_isSome, List.any_eq_true]
  unfold successors Depends named
  split
  · rename_i c found
    simp only [found, List.mem_filter, isName, named, Option.some.injEq, exists_eq_left']
  · rename_i missing
    simp only [missing, List.not_mem_nil, reduceCtorEq, false_and, exists_false]

theorem successors_subset (name : String) : successors cs name ⊆ cs.map (·.var) := by
  intro other member
  obtain ⟨_, _, _, found⟩ := mem_successors.mp member
  exact named_isSome.mp found

theorem mem_reachable : b ∈ reachable cs a ↔ Reaches cs a b := by
  have search : Search (successors cs) a (cs.map (·.var)) _ _ _ := .start successors_subset
  rw [List.length_map] at search
  have same : (fun a b => b ∈ successors cs a) = Depends cs := by
    funext a b
    exact propext mem_successors
  exact (search.mem_explore successors_subset).trans (same ▸ Iff.rfl)

instance (cs : List Candidate) (a b : String) : Decidable (Reaches cs a b) :=
  decidable_of_iff _ mem_reachable

theorem Reaches.isName (path : Reaches cs a b) : (named cs a).isSome := by
  obtain ⟨_, ⟨c, found, _⟩, _⟩ := TransGen.head'_iff.mp path
  exact Option.isSome_of_eq_some found

theorem lookup_map_eq_some {α : Type} (f : String → α) (member : name ∈ cs.map (·.var)) :
    (cs.map fun c => (c.var, f c.var)).lookup name = some (f name) := by
  induction cs with
  | nil => contradiction
  | cons c rest ih =>
    rw [List.map_cons, List.lookup_cons]
    by_cases same : name = c.var
    · simp only [same, beq_self_eq_true]
    · rw [beq_eq_false_iff_ne.mpr same]
      exact ih ((List.mem_cons.mp member).resolve_left same)

/-- The table agrees with the paths between its nodes. -/
theorem table_reaches : (ReachTable.ofNodes cs).reaches a b = true ↔ Reaches cs a b := by
  by_cases member : a ∈ cs.map (·.var)
  · have row := lookup_map_eq_some (reachable cs) member
    simp only [ReachTable.reaches, ReachTable.of, ReachTable.ofNodes, row, Option.getD_some,
      decide_eq_true_eq, mem_reachable]
  · have row : ((ReachTable.ofNodes cs).rows.lookup a) = none := by
      rw [ReachTable.ofNodes, List.lookup_eq_none_iff]
      rintro _ present
      obtain ⟨c, listed, rfl⟩ := List.mem_map.mp present
      rw [bne_iff_ne]
      rintro rfl
      exact member (List.mem_map.mpr ⟨c, listed, rfl⟩)
    have unreached : ¬ Reaches cs a b := fun path => member (named_isSome.mp path.isName)
    simp only [ReachTable.reaches, ReachTable.of, row, Option.getD_none, List.not_mem_nil,
      decide_false, Bool.false_eq_true, unreached]

end Schemata.Resolution
