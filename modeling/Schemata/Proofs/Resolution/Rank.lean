import Mathlib.Data.Finset.Lattice.Fold
import Mathlib.Data.List.Range
import Mathlib.Data.List.Nodup
import Mathlib.Order.Lattice.Nat
import Schemata.Resolution.Candidate

/-! Ranks of validators. The rank counts the rounds that a validator waits for what it depends on;
a name has none if it is missing or depends on itself through others. Ranks are decided by looking
no deeper than the number of candidates, because every rank below a rank is taken. -/
namespace Schemata.Resolution

/-- No two candidates share a name. -/
abbrev Distinct (cs : List Candidate) : Prop := (cs.map (·.var)).Nodup

/-- The candidate of a name. -/
def named (cs : List Candidate) (name : String) : Option Candidate := cs.find? (·.var == name)

/-- One above the highest rank of the foreign dependencies, all of which have one; the rank is one
where there are none. -/
inductive HasRank (cs : List Candidate) : String → Nat → Prop where
  | above {name c} (found : named cs name = some c) (ranks : String → Nat)
      (below : ∀ d ∈ c.foreign, HasRank cs d (ranks d)) :
      HasRank cs name (c.foreign.toFinset.sup ranks + 1)

def Ranked (cs : List Candidate) (name : String) : Prop := ∃ r, HasRank cs name r

def RankedWithin (cs : List Candidate) (limit : Nat) (name : String) : Prop :=
  ∃ r ≤ limit, HasRank cs name r

/-- The rank of a name, if it is at most `depth`. -/
def rankWithin (cs : List Candidate) : Nat → String → Option Nat
  | 0, _ => none
  | depth + 1, name =>
    (named cs name).bind fun c =>
      if c.foreign.all fun d => (rankWithin cs depth d).isSome then
        some (c.foreign.toFinset.sup (fun d => (rankWithin cs depth d).getD 0) + 1)
      else none

def rank? (cs : List Candidate) (name : String) : Option Nat := rankWithin cs cs.length name

variable {cs : List Candidate} {c : Candidate} {name : String} {r s k : Nat}

theorem named_some (found : named cs name = some c) : c ∈ cs ∧ c.var = name :=
  ⟨List.mem_of_find?_eq_some found,
    beq_iff_eq.mp (List.find?_some (p := fun e : Candidate => e.var == name) found)⟩

theorem named_of_mem (distinct : Distinct cs) (member : c ∈ cs) : named cs c.var = some c := by
  induction cs with
  | nil => contradiction
  | cons first rest ih =>
    obtain ⟨fresh, distinct⟩ := List.nodup_cons.mp distinct
    simp only [named, List.find?_cons]
    rcases List.mem_cons.mp member with rfl | later
    · simp
    · have differs : (first.var == c.var) = false := by
        rw [beq_eq_false_iff_ne]
        intro same
        exact fresh (List.mem_map.mpr ⟨c, later, same.symm⟩)
      rw [differs]
      exact ih distinct later

theorem named_isSome : (named cs name).isSome ↔ name ∈ cs.map (·.var) := by
  simp only [named, List.find?_isSome, beq_iff_eq, List.mem_map]

theorem HasRank.positive (ranked : HasRank cs name r) : 0 < r := by
  cases ranked
  exact Nat.succ_pos _

theorem HasRank.found (ranked : HasRank cs name r) : ∃ c, named cs name = some c := by
  cases ranked with
  | above found => exact ⟨_, found⟩

theorem HasRank.unique (first : HasRank cs name r) (second : HasRank cs name s) : r = s := by
  induction first generalizing s with
  | above found ranks below ih =>
    cases second with
    | above again others lower =>
      obtain rfl := Option.some.inj (found.symm.trans again)
      congr 1
      exact Finset.sup_congr rfl fun d member =>
        ih d (List.mem_toFinset.mp member) (lower d (List.mem_toFinset.mp member))

/-- Every dependency is ranked below. -/
theorem HasRank.lower (ranked : HasRank cs name r) (found : named cs name = some c) {d : String}
    (member : d ∈ c.foreign) : ∃ s < r, HasRank cs d s := by
  cases ranked with
  | above again ranks below =>
    obtain rfl := Option.some.inj (found.symm.trans again)
    have bound := Finset.le_sup (f := ranks) (List.mem_toFinset.mpr member)
    exact ⟨ranks d, by omega, below d member⟩

/-- A name is ranked within one round more than its dependencies. -/
theorem rankedWithin_succ (found : named cs name = some c) :
    RankedWithin cs (k + 1) name ↔ ∀ d ∈ c.foreign, RankedWithin cs k d := by
  constructor
  · rintro ⟨r, bound, ranked⟩ d member
    obtain ⟨s, lower, below⟩ := ranked.lower found member
    exact ⟨s, by omega, below⟩
  · intro within
    choose! ranks bound below using within
    refine ⟨_, Nat.succ_le_succ ?_, .above found ranks below⟩
    exact Finset.sup_le fun d member => bound d (List.mem_toFinset.mp member)

theorem RankedWithin.mono (within : RankedWithin cs r name) (bound : r ≤ s) :
    RankedWithin cs s name := by
  obtain ⟨t, upper, ranked⟩ := within
  exact ⟨t, upper.trans bound, ranked⟩

theorem not_rankedWithin_zero : ¬ RankedWithin cs 0 name := by
  rintro ⟨r, bound, ranked⟩
  have := ranked.positive
  omega

/-- The names of a rank are those ranked within it and not within the one before. -/
theorem hasRank_succ_iff :
    HasRank cs name (k + 1) ↔ RankedWithin cs (k + 1) name ∧ ¬ RankedWithin cs k name := by
  constructor
  · intro ranked
    refine ⟨⟨k + 1, le_rfl, ranked⟩, ?_⟩
    rintro ⟨r, bound, lower⟩
    have := lower.unique ranked
    omega
  · rintro ⟨⟨r, bound, ranked⟩, beyond⟩
    have exact : r = k + 1 := by
      by_contra differs
      exact beyond ⟨r, by omega, ranked⟩
    exact exact ▸ ranked

theorem rankWithin_sound {depth : Nat} (computed : rankWithin cs depth name = some r) :
    HasRank cs name r := by
  induction depth generalizing name r with
  | zero => contradiction
  | succ depth ih =>
    simp only [rankWithin, Option.bind_eq_some_iff] at computed
    obtain ⟨c, found, computed⟩ := computed
    split at computed
    · rename_i all
      obtain rfl := Option.some.inj computed
      refine .above found _ fun d member => ih ?_
      obtain ⟨rank, known⟩ := Option.isSome_iff_exists.mp (List.all_eq_true.mp all d member)
      rw [known, Option.getD_some]
    · contradiction

theorem rankWithin_complete {depth : Nat} (ranked : HasRank cs name r) (bound : r ≤ depth) :
    rankWithin cs depth name = some r := by
  induction ranked generalizing depth with
  | @above name c found ranks below ih =>
    obtain ⟨depth, rfl⟩ : ∃ less, depth = less + 1 := ⟨depth - 1, by omega⟩
    have known : ∀ d ∈ c.foreign, rankWithin cs depth d = some (ranks d) := by
      intro d member
      have lower := Finset.le_sup (f := ranks) (List.mem_toFinset.mpr member)
      exact ih d member (by omega)
    have all : (c.foreign.all fun d => (rankWithin cs depth d).isSome) = true := by
      rw [List.all_eq_true]
      intro d member
      rw [known d member, Option.isSome_some]
    have same : c.foreign.toFinset.sup (fun d => (rankWithin cs depth d).getD 0) =
        c.foreign.toFinset.sup ranks :=
      Finset.sup_congr rfl fun d member => by
        rw [known d (List.mem_toFinset.mp member), Option.getD_some]
    simp only [rankWithin, found, Option.bind_some, all, if_true, same]

/-- Every rank up to a rank is taken. -/
theorem HasRank.contiguous (ranked : HasRank cs name r) (positive : 0 < k) (bound : k ≤ r) :
    ∃ c ∈ cs, HasRank cs c.var k := by
  induction ranked with
  | @above name c found ranks below ih =>
    by_cases top : k = c.foreign.toFinset.sup ranks + 1
    · obtain ⟨member, rfl⟩ := named_some found
      exact ⟨c, member, top ▸ .above found ranks below⟩
    · have reach : k ≤ c.foreign.toFinset.sup ranks := by omega
      obtain ⟨d, member, reached⟩ := (Finset.le_sup_iff positive).mp reach
      exact ih d (List.mem_toFinset.mp member) reached

/-- There are no more ranks than candidates. -/
theorem HasRank.le_length (ranked : HasRank cs name r) : r ≤ cs.length := by
  have taken : (List.range r).map (· + 1) ⊆ cs.filterMap fun c => rankWithin cs r c.var := by
    intro k member
    obtain ⟨below, inRange, rfl⟩ := List.mem_map.mp member
    have bound := List.mem_range.mp inRange
    obtain ⟨c, present, rank⟩ := ranked.contiguous (Nat.succ_pos below) (by omega)
    exact List.mem_filterMap.mpr ⟨c, present, rankWithin_complete rank (by omega)⟩
  have distinct : ((List.range r).map (· + 1)).Nodup :=
    List.nodup_range.map fun _ _ same => Nat.succ.inj same
  calc
    r = ((List.range r).map (· + 1)).length := by simp
    _ ≤ (cs.filterMap fun c => rankWithin cs r c.var).length :=
      distinct.length_le_of_subset taken
    _ ≤ cs.length := List.length_filterMap_le _ _

theorem rank?_eq_some_iff : rank? cs name = some r ↔ HasRank cs name r :=
  ⟨rankWithin_sound, fun ranked => rankWithin_complete ranked ranked.le_length⟩

theorem rank?_isSome_iff : (rank? cs name).isSome ↔ Ranked cs name := by
  simp only [Option.isSome_iff_exists, rank?_eq_some_iff, Ranked]

/-- The number of candidates is as good as no limit. -/
theorem ranked_iff_within_length : Ranked cs name ↔ RankedWithin cs cs.length name :=
  ⟨fun ⟨r, ranked⟩ => ⟨r, ranked.le_length, ranked⟩, fun ⟨r, _, ranked⟩ => ⟨r, ranked⟩⟩

instance (cs : List Candidate) (name : String) (r : Nat) : Decidable (HasRank cs name r) :=
  decidable_of_iff _ rank?_eq_some_iff

instance (cs : List Candidate) (name : String) : Decidable (Ranked cs name) :=
  decidable_of_iff _ rank?_isSome_iff

instance (cs : List Candidate) (limit : Nat) (name : String) :
    Decidable (RankedWithin cs limit name) :=
  decidable_of_iff (∃ r ∈ rank? cs name, r ≤ limit) <| by
    simp only [Option.mem_def, rank?_eq_some_iff, RankedWithin, and_comm]

end Schemata.Resolution
