import Schemata.Proofs.Resolution.Rank
import Schemata.Resolution.Placement

/-! What a resolution places, and when. Round `k` places exactly the candidates of rank `k`, for
every dependency graph; so the outcome at a limit is given by the ranks alone. -/
namespace Schemata.Resolution

/-- The candidates of one rank, in the order of extraction. -/
def ofRank (cs : List Candidate) (r : Nat) : List Candidate := cs.filter fun c => HasRank cs c.var r

/-- The candidates up to a rank, the lower ranks first. -/
def rankOrder (cs : List Candidate) (limit : Nat) : List Candidate :=
  (List.range limit).flatMap fun k => ofRank cs (k + 1)

/-- The candidates that have no rank up to the limit, in the order of extraction. -/
def unplaced (cs : List Candidate) (limit : Nat) : List Candidate :=
  cs.filter fun c => ¬ RankedWithin cs limit c.var

/-- Zero where no candidate has a rank. -/
def highestRank (cs : List Candidate) : Nat :=
  (cs.filterMap fun c => rank? cs c.var).toFinset.sup id

/-- A candidate without a rank costs one round more, which finds that nothing can be placed. -/
def neededRounds (cs : List Candidate) : Nat :=
  if ∀ c ∈ cs, Ranked cs c.var then highestRank cs else highestRank cs + 1

/-- The placements of candidates one after the other. -/
def placements (order : List Candidate) : Placements := order.foldl place []

variable {cs order more : List Candidate} {c : Candidate} {placed : Placements} {s : State}
  {name : String} {k r limit : Nat}

theorem has_iff : placed.has name = true ↔ name ∈ placed.map (·.1) := by
  simp only [Placements.has, List.any_eq_true, beq_iff_eq, List.mem_map]

theorem foldl_place_names :
    (order.foldl place placed).map (·.1) = placed.map (·.1) ++ order.map (·.var) := by
  induction order generalizing placed with
  | nil => simp
  | cons c rest ih =>
    rw [List.foldl_cons, ih]
    simp only [place, List.map_append, List.map_cons, List.map_nil, List.append_assoc,
      List.cons_append, List.nil_append]

theorem placements_names : (placements order).map (·.1) = order.map (·.var) := by
  rw [placements, foldl_place_names, List.map_nil, List.nil_append]

theorem mem_ofRank : c ∈ ofRank cs r ↔ c ∈ cs ∧ HasRank cs c.var r := by
  rw [ofRank, List.mem_filter, decide_eq_true_eq]

theorem rankOrder_succ : rankOrder cs (k + 1) = rankOrder cs k ++ ofRank cs (k + 1) := by
  simp only [rankOrder, List.range_succ, List.flatMap_append, List.flatMap_singleton]

theorem mem_rankOrder : c ∈ rankOrder cs limit ↔ c ∈ cs ∧ RankedWithin cs limit c.var := by
  simp only [rankOrder, List.mem_flatMap, List.mem_range, mem_ofRank]
  constructor
  · rintro ⟨k, bound, member, ranked⟩
    exact ⟨member, k + 1, bound, ranked⟩
  · rintro ⟨member, r, bound, ranked⟩
    have positive := ranked.positive
    refine ⟨r - 1, by omega, member, ?_⟩
    rwa [Nat.sub_add_cancel positive]

theorem mem_unplaced : c ∈ unplaced cs limit ↔ c ∈ cs ∧ ¬ RankedWithin cs limit c.var := by
  rw [unplaced, List.mem_filter, decide_eq_true_eq]

theorem name_mem_rankOrder :
    name ∈ (rankOrder cs limit).map (·.var) ↔ RankedWithin cs limit name := by
  constructor
  · intro member
    obtain ⟨c, present, rfl⟩ := List.mem_map.mp member
    exact (mem_rankOrder.mp present).2
  · intro within
    obtain ⟨r, bound, ranked⟩ := within
    obtain ⟨c, found⟩ := ranked.found
    obtain ⟨member, rfl⟩ := named_some found
    exact List.mem_map.mpr ⟨c, mem_rankOrder.mpr ⟨member, r, bound, ranked⟩, rfl⟩

/-- Candidates of different ranks differ, and those of one rank have different names. -/
theorem rankOrder_distinct (distinct : Distinct cs) : Distinct (rankOrder cs limit) := by
  induction limit with
  | zero => exact List.nodup_nil
  | succ k ih =>
    rw [rankOrder_succ, Distinct, List.map_append, List.nodup_append]
    refine ⟨ih, distinct.sublist (List.filter_sublist.map _), ?_⟩
    rintro name before other added rfl
    obtain ⟨c, present, rfl⟩ := List.mem_map.mp added
    exact (hasRank_succ_iff.mp (mem_ofRank.mp present).2).2 (name_mem_rankOrder.mp before)

theorem HasRank.le_highest (ranked : HasRank cs name r) : r ≤ highestRank cs := by
  obtain ⟨c, found⟩ := ranked.found
  obtain ⟨member, rfl⟩ := named_some found
  have listed : r ∈ cs.filterMap fun c => rank? cs c.var :=
    List.mem_filterMap.mpr ⟨c, member, rank?_eq_some_iff.mpr ranked⟩
  exact Finset.le_sup (f := id) (List.mem_toFinset.mpr listed)

theorem highestRank_taken (positive : 0 < k) (bound : k ≤ highestRank cs) :
    ∃ c ∈ cs, HasRank cs c.var k := by
  obtain ⟨r, member, reached⟩ := (Finset.le_sup_iff positive).mp bound
  obtain ⟨c, _, rank⟩ := List.mem_filterMap.mp (List.mem_toFinset.mp member)
  exact (rank?_eq_some_iff.mp rank).contiguous positive reached

theorem ofRank_eq_nil_iff : ofRank cs (k + 1) = [] ↔ highestRank cs ≤ k := by
  rw [List.eq_nil_iff_forall_not_mem]
  constructor
  · intro none
    by_contra beyond
    obtain ⟨c, member, ranked⟩ := highestRank_taken (Nat.succ_pos k) (Nat.lt_of_not_le beyond)
    exact none c (mem_ofRank.mpr ⟨member, ranked⟩)
  · intro bound c present
    have := (mem_ofRank.mp present).2.le_highest
    omega

theorem highestRank_le_needed : highestRank cs ≤ neededRounds cs := by
  unfold neededRounds
  split <;> omega

theorem neededRounds_of_ranked (ranked : ∀ c ∈ cs, RankedWithin cs k c.var)
    (bound : k ≤ highestRank cs) : neededRounds cs = k := by
  have all : ∀ c ∈ cs, Ranked cs c.var := by
    intro c member
    obtain ⟨r, _, rank⟩ := ranked c member
    exact ⟨r, rank⟩
  have top : highestRank cs ≤ k := by
    rw [← ofRank_eq_nil_iff, List.eq_nil_iff_forall_not_mem]
    intro c present
    obtain ⟨member, rank⟩ := mem_ofRank.mp present
    exact (hasRank_succ_iff.mp rank).2 (ranked c member)
  rw [neededRounds, if_pos all]
  exact Nat.le_antisymm top bound

theorem neededRounds_of_unranked (unranked : ¬ ∀ c ∈ cs, RankedWithin cs k c.var)
    (top : highestRank cs ≤ k) : neededRounds cs = highestRank cs + 1 := by
  refine if_neg fun ranked => unranked fun c member => ?_
  obtain ⟨r, rank⟩ := ranked c member
  exact ⟨r, rank.le_highest.trans top, rank⟩

/-- The state after `k` rounds. -/
structure After (cs : List Candidate) (k : Nat) (s : State) : Prop where
  chosen : s.chosen = rankOrder cs k
  placed : s.placed = placements s.chosen
  pending : s.pending = unplaced cs k
  rounds : s.rounds = k

theorem after_start : After cs 0 { pending := cs } where
  chosen := rfl
  placed := rfl
  pending := by
    have all : ∀ c ∈ cs, decide (¬ RankedWithin cs 0 c.var) = true :=
      fun _ _ => decide_eq_true not_rankedWithin_zero
    exact (List.filter_eq_self.mpr all).symm
  rounds := rfl

/-- In each round, those are ready whose rank comes next or has been. -/
theorem After.isReady_iff (after : After cs k s) (distinct : Distinct cs) (member : c ∈ cs) :
    isReady s.placed c = true ↔ RankedWithin cs (k + 1) c.var := by
  rw [rankedWithin_succ (named_of_mem distinct member)]
  simp only [isReady, List.all_eq_true, has_iff, after.placed, placements_names, after.chosen,
    name_mem_rankOrder]

theorem After.ready (after : After cs k s) (distinct : Distinct cs) :
    s.pending.filter (isReady s.placed) = ofRank cs (k + 1) := by
  rw [after.pending, unplaced, List.filter_filter, ofRank]
  refine List.filter_congr fun c member => ?_
  rw [Bool.eq_iff_iff, Bool.and_eq_true, after.isReady_iff distinct member, decide_eq_true_eq,
    decide_eq_true_eq, hasRank_succ_iff]

theorem After.waiting (after : After cs k s) (distinct : Distinct cs) :
    (s.pending.filter fun c => !isReady s.placed c) = unplaced cs (k + 1) := by
  rw [after.pending, unplaced, List.filter_filter, unplaced]
  refine List.filter_congr fun c member => ?_
  have earlier : RankedWithin cs k c.var → RankedWithin cs (k + 1) c.var :=
    fun within => within.mono (Nat.le_succ k)
  rw [Bool.eq_iff_iff, Bool.and_eq_true, Bool.not_eq_true', ← Bool.not_eq_true,
    after.isReady_iff distinct member, decide_eq_true_eq, decide_eq_true_eq]
  exact ⟨fun both => both.1, fun beyond => ⟨beyond, fun within => beyond (earlier within)⟩⟩

/-- One round places the next rank. -/
theorem After.round (after : After cs k s) (distinct : Distinct cs) : After cs (k + 1) s.round where
  chosen := by
    simp only [State.round, after.chosen, after.ready distinct, rankOrder_succ]
  placed := by
    simp only [State.round, after.placed, placements, List.foldl_append]
  pending := after.waiting distinct
  rounds := by
    simp only [State.round, after.rounds]

theorem After.stalled_iff (after : After cs k s) (distinct : Distinct cs) :
    s.isStalled = true ↔ highestRank cs ≤ k := by
  rw [← ofRank_eq_nil_iff, ← after.ready distinct, State.isStalled, Bool.not_eq_true',
    ← Bool.not_eq_true, List.any_eq_true, List.filter_eq_nil_iff]
  simp only [not_exists, not_and]

theorem After.finished_iff (after : After cs k s) :
    s.pending.isEmpty = true ↔ ∀ c ∈ cs, RankedWithin cs k c.var := by
  rw [List.isEmpty_iff, after.pending, unplaced, List.filter_eq_nil_iff]
  simp only [decide_eq_true_eq, Classical.not_not]

/-- A run goes on to the limit or to the end of what is needed. It never starts beyond the highest
rank, because a round that places nothing is the last one. -/
theorem After.run (after : After cs k s) (distinct : Distinct cs) (bound : k ≤ highestRank cs)
    (limit : Nat) : After cs (min (k + limit) (neededRounds cs)) (State.run limit s) := by
  induction limit generalizing k s with
  | zero =>
    rw [Nat.add_zero, Nat.min_eq_left (bound.trans highestRank_le_needed)]
    exact after
  | succ limit ih =>
    unfold State.run
    split
    · rename_i finished
      have needed := neededRounds_of_ranked (after.finished_iff.mp finished) bound
      rw [needed, Nat.min_eq_right (Nat.le_add_right k _)]
      exact after
    · rename_i pending
      split
      · rename_i stalled
        have top := (after.stalled_iff distinct).mp stalled
        have needed := neededRounds_of_unranked (fun all => pending (after.finished_iff.mpr all)) top
        rw [needed, show min (k + (limit + 1)) (highestRank cs + 1) = k + 1 by omega]
        exact after.round distinct
      · rename_i progress
        have below : k + 1 ≤ highestRank cs := by
          by_contra beyond
          exact progress ((after.stalled_iff distinct).mpr (by omega))
        have rest := ih (after.round distinct) below
        rwa [show k + 1 + limit = k + (limit + 1) by omega] at rest

/-- Rounds beyond the highest rank place nothing. -/
theorem rankOrder_beyond (bound : highestRank cs ≤ k) (d : Nat) :
    rankOrder cs (k + d) = rankOrder cs k := by
  induction d with
  | zero => rfl
  | succ d ih =>
    have empty : ofRank cs (k + d + 1) = [] :=
      ofRank_eq_nil_iff.mpr (bound.trans (Nat.le_add_right k d))
    rw [← Nat.add_assoc, rankOrder_succ, empty, List.append_nil, ih]

theorem rankOrder_needed (cs : List Candidate) (limit : Nat) :
    rankOrder cs (min limit (neededRounds cs)) = rankOrder cs limit := by
  rcases Nat.le_total limit (neededRounds cs) with within | beyond
  · rw [Nat.min_eq_left within]
  · obtain ⟨d, rfl⟩ := Nat.exists_eq_add_of_le beyond
    rw [Nat.min_eq_right (Nat.le_add_right _ d), rankOrder_beyond highestRank_le_needed]

theorem unplaced_needed (cs : List Candidate) (limit : Nat) :
    unplaced cs (min limit (neededRounds cs)) = unplaced cs limit := by
  refine List.filter_congr fun c _ => ?_
  have same : RankedWithin cs (min limit (neededRounds cs)) c.var ↔
      RankedWithin cs limit c.var := by
    refine ⟨fun within => within.mono (Nat.min_le_left _ _), ?_⟩
    rintro ⟨r, bound, ranked⟩
    have highest := ranked.le_highest.trans highestRank_le_needed
    exact ⟨r, Nat.le_min.mpr ⟨bound, highest⟩, ranked⟩
  simp only [same]

/-- Where a resolution ends. -/
theorem after_resolution (distinct : Distinct cs) (limit : Nat) :
    After cs (min limit (neededRounds cs)) (State.run limit { pending := cs }) := by
  simpa only [Nat.zero_add] using after_start.run distinct (Nat.zero_le _) limit

theorem resolve_placed (distinct : Distinct cs) (limit : Nat) :
    (resolve cs limit).placed = placements (rankOrder cs limit) := by
  have final := after_resolution distinct limit
  exact final.placed.trans (by rw [final.chosen, rankOrder_needed])

theorem resolve_names (distinct : Distinct cs) (limit : Nat) :
    (resolve cs limit).placed.map (·.1) = (rankOrder cs limit).map (·.var) := by
  rw [resolve_placed distinct, placements_names]

theorem resolve_unresolved (distinct : Distinct cs) (limit : Nat) :
    (resolve cs limit).unresolved = (unplaced cs limit).map (·.var) := by
  have final := after_resolution distinct limit
  exact congrArg (List.map (·.var)) (final.pending.trans (unplaced_needed cs limit))

/-- The outcome of a resolution in terms of ranks: what is placed and in which order, what is left,
and how many rounds it takes. -/
theorem resolve_by_rank (distinct : Distinct cs) (limit : Nat) :
    (resolve cs limit).placed = placements (rankOrder cs limit) ∧
    (resolve cs limit).placed.map (·.1) = (rankOrder cs limit).map (·.var) ∧
    ((resolve cs limit).placed.map (·.1)).Nodup ∧
    (resolve cs limit).unresolved = (unplaced cs limit).map (·.var) ∧
    (resolve cs limit).rounds = min limit (neededRounds cs) := by
  refine ⟨resolve_placed distinct limit, resolve_names distinct limit, ?_,
    resolve_unresolved distinct limit, (after_resolution distinct limit).rounds⟩
  rw [resolve_names distinct]
  exact rankOrder_distinct distinct

/-- A chain against the order of extraction, a circle, one behind it and a missing name. -/
def tangle : List Candidate :=
  let candidate (var : String) (dependencies : List String) : Candidate :=
    { type := var, var, dependencies,
      statement := { name := var, init := .array (dependencies.map .ident) } }
  [candidate "top" ["middle", "top"], candidate "left" ["right"], candidate "middle" ["bottom"],
    candidate "right" ["left"], candidate "behind" ["bottom", "left"], candidate "bottom" [],
    candidate "lost" ["absent"]]

theorem tangle_by_rank : Distinct tangle ∧
    (resolve tangle 2).placed.map (·.1) = ["bottom", "middle"] ∧
    (resolve tangle 2).unresolved = ["top", "left", "right", "behind", "lost"] ∧
    (resolve tangle 2).rounds = 2 ∧ (resolve tangle 9).rounds = 4 := by
  have distinct : Distinct tangle := by decide
  obtain ⟨_, names, _, unresolved, rounds⟩ := resolve_by_rank distinct 2
  refine ⟨distinct, names.trans (by decide), unresolved.trans (by decide), rounds.trans (by decide),
    (resolve_by_rank distinct 9).2.2.2.2.trans (by decide)⟩

end Schemata.Resolution
