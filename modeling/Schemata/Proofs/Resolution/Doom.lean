import Mathlib.Data.Finset.Card
import Schemata.Proofs.Resolution.Reachability

/-! The candidates that no number of rounds places are those from which the dependencies lead to a
circle or to a missing name. Away from these, each dependency reaches strictly less than what
depends on it, which gives the ranks. -/
namespace Schemata.Resolution

open Relation

/-- On a circle of dependencies through another candidate. -/
def OnCycle (cs : List Candidate) (name : String) : Prop :=
  ∃ other ≠ name, Reaches cs name other ∧ Reaches cs other name

/-- The foreign dependencies that no candidate is named after. -/
def absent (cs : List Candidate) (c : Candidate) : List String :=
  c.foreign.filter (· ∉ cs.map (·.var))

def Lacks (cs : List Candidate) (name : String) : Prop :=
  ∃ c ∈ named cs name, absent cs c ≠ []

/-- Leads to a circle or to a missing name. -/
def Doomed (cs : List Candidate) (name : String) : Prop :=
  ∃ root, ReflTransGen (Depends cs) name root ∧ (OnCycle cs root ∨ Lacks cs root)

variable {cs : List Candidate} {c : Candidate} {name a b : String} {r : Nat}

theorem Depends.ne (edge : Depends cs a b) : a ≠ b := by
  obtain ⟨c, found, member, _⟩ := edge
  obtain ⟨_, rfl⟩ := named_some found
  rintro rfl
  simp [Candidate.foreign] at member

theorem Reaches.of_reflTransGen (path : ReflTransGen (Depends cs) a b) (differs : a ≠ b) :
    Reaches cs a b :=
  (reflTransGen_iff_eq_or_transGen.mp path).resolve_left differs.symm

/-- No circle is a self-reference, because these are no dependencies on others. -/
theorem onCycle_iff : OnCycle cs name ↔ Reaches cs name name := by
  constructor
  · rintro ⟨other, _, forth, back⟩
    exact forth.trans back
  · intro path
    obtain ⟨other, edge, back⟩ := TransGen.head'_iff.mp path
    exact ⟨other, edge.ne.symm, .single edge, .of_reflTransGen back edge.ne.symm⟩

theorem Depends.rank_lt (edge : Depends cs a b) (ranked : HasRank cs a r) :
    ∃ s < r, HasRank cs b s := by
  obtain ⟨c, found, member, _⟩ := edge
  exact ranked.lower found member

theorem Reaches.rank_lt (path : Reaches cs a b) (ranked : HasRank cs a r) :
    ∃ s < r, HasRank cs b s := by
  induction path with
  | single edge => exact edge.rank_lt ranked
  | tail _ edge ih =>
    obtain ⟨s, lower, middle⟩ := ih
    obtain ⟨t, lowest, last⟩ := edge.rank_lt middle
    exact ⟨t, lowest.trans lower, last⟩

theorem Reaches.unranked (path : Reaches cs a b) (unranked : ¬ Ranked cs b) : ¬ Ranked cs a := by
  rintro ⟨r, ranked⟩
  obtain ⟨s, _, below⟩ := path.rank_lt ranked
  exact unranked ⟨s, below⟩

theorem OnCycle.unranked (cyclic : OnCycle cs name) : ¬ Ranked cs name := by
  rintro ⟨r, ranked⟩
  obtain ⟨s, lower, again⟩ := (onCycle_iff.mp cyclic).rank_lt ranked
  have := again.unique ranked
  omega

theorem mem_absent {d : String} : d ∈ absent cs c ↔ d ∈ c.foreign ∧ d ∉ cs.map (·.var) := by
  rw [absent, List.mem_filter, decide_eq_true_eq]

theorem Lacks.unranked (lacks : Lacks cs name) : ¬ Ranked cs name := by
  rintro ⟨r, ranked⟩
  obtain ⟨c, found, some⟩ := lacks
  obtain ⟨d, member⟩ := List.exists_mem_of_ne_nil _ some
  obtain ⟨dependency, missing⟩ := mem_absent.mp member
  obtain ⟨s, _, below⟩ := ranked.lower found dependency
  obtain ⟨e, present⟩ := below.found
  exact missing (named_isSome.mp (Option.isSome_of_eq_some present))

theorem Doomed.unranked (doomed : Doomed cs name) : ¬ Ranked cs name := by
  obtain ⟨root, path, cause⟩ := doomed
  have stuck : ¬ Ranked cs root := cause.elim OnCycle.unranked Lacks.unranked
  rcases reflTransGen_iff_eq_or_transGen.mp path with rfl | further
  · exact stuck
  · exact Reaches.unranked further stuck

theorem Doomed.isName (doomed : Doomed cs name) : (named cs name).isSome := by
  obtain ⟨root, path, cause⟩ := doomed
  rcases reflTransGen_iff_eq_or_transGen.mp path with rfl | further
  · rcases cause with cyclic | ⟨c, found, _⟩
    · exact (onCycle_iff.mp cyclic).isName
    · exact Option.isSome_of_eq_some found
  · exact Reaches.isName further

/-- What a name reaches, as a set that shrinks along dependencies. -/
def reach (cs : List Candidate) (name : String) : Finset String := (reachable cs name).toFinset

theorem mem_reach : b ∈ reach cs a ↔ Reaches cs a b := by
  rw [reach, List.mem_toFinset, mem_reachable]

theorem Depends.reach_card_lt (edge : Depends cs a b) (acyclic : ¬ OnCycle cs b) :
    (reach cs b).card < (reach cs a).card := by
  refine Finset.card_lt_card (Finset.ssubset_iff_subset_ne.mpr ⟨?_, ?_⟩)
  · intro other member
    exact mem_reach.mpr (TransGen.head edge (mem_reach.mp member))
  · intro same
    have itself : b ∈ reach cs b := same ▸ mem_reach.mpr (.single edge)
    exact acyclic (onCycle_iff.mpr (mem_reach.mp itself))

theorem ranked_of_not_doomed (found : named cs name = some c) (free : ¬ Doomed cs name) :
    Ranked cs name := by
  induction size : (reach cs name).card using Nat.strong_induction_on generalizing name c with
  | _ size ih =>
    have below : ∀ d ∈ c.foreign, Ranked cs d := by
      intro d member
      have isName : (named cs d).isSome := by
        by_contra missing
        rw [named_isSome] at missing
        have lacks : Lacks cs name :=
          ⟨c, found, List.ne_nil_of_mem (mem_absent.mpr ⟨member, missing⟩)⟩
        exact free ⟨name, .refl, .inr lacks⟩
      have edge : Depends cs name d := ⟨c, found, member, isName⟩
      have safe : ¬ Doomed cs d := by
        rintro ⟨root, path, cause⟩
        exact free ⟨root, .head edge path, cause⟩
      have acyclic : ¬ OnCycle cs d := fun cyclic => safe ⟨d, .refl, .inl cyclic⟩
      obtain ⟨e, present⟩ := Option.isSome_iff_exists.mp isName
      exact ih _ (size ▸ edge.reach_card_lt acyclic) present safe rfl
    choose! ranks known using below
    exact ⟨_, .above found ranks known⟩

/-- A candidate has a rank exactly if no dependency path from it ends badly. -/
theorem doomed_iff : Doomed cs name ↔ (named cs name).isSome ∧ ¬ Ranked cs name := by
  refine ⟨fun doomed => ⟨doomed.isName, doomed.unranked⟩, ?_⟩
  rintro ⟨isName, unranked⟩
  obtain ⟨c, found⟩ := Option.isSome_iff_exists.mp isName
  by_contra free
  exact unranked (ranked_of_not_doomed found free)

instance (cs : List Candidate) (name : String) : Decidable (OnCycle cs name) :=
  decidable_of_iff _ onCycle_iff.symm

instance (cs : List Candidate) (name : String) : Decidable (Lacks cs name) :=
  inferInstanceAs (Decidable (∃ c ∈ named cs name, absent cs c ≠ []))

instance (cs : List Candidate) (name : String) : Decidable (Doomed cs name) :=
  decidable_of_iff _ doomed_iff.symm

end Schemata.Resolution
