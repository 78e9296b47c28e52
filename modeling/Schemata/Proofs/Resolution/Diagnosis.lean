import Schemata.Proofs.Resolution.Doom
import Schemata.Proofs.Resolution.Rounds
import Schemata.Resolution.Diagnosis

/-! The explanations of unplaced candidates, in terms of all candidates and no round limit. A
candidate without a rank is unplaced at every limit, and so is all that leads to it; thus the graph
of the unplaced ones keeps every circle, and every path to one or to a missing name. -/
namespace Schemata.Resolution

open Relation

/-- Two names on one circle, or the same name. -/
def Connected (cs : List Candidate) (a b : String) : Prop :=
  ReflTransGen (Depends cs) a b ∧ ReflTransGen (Depends cs) b a

instance (cs : List Candidate) (a b : String) : Decidable (Connected cs a b) :=
  decidable_of_iff ((b = a ∨ Reaches cs a b) ∧ (a = b ∨ Reaches cs b a))
    (by simp only [Connected, reflTransGen_iff_eq_or_transGen])

/-- A strongly connected component, in the order of extraction. -/
def component (cs : List Candidate) (name : String) : List String :=
  (cs.filter fun d => Connected cs name d.var).map (·.var)

/-- What an unplaced candidate should be told, by the dependencies among all candidates. -/
def diagnosis (cs : List Candidate) (c : Candidate) : Cause :=
  if OnCycle cs c.var then .cycle (component cs c.var)
  else if absent cs c ≠ [] then .missing (absent cs c)
  else if Doomed cs c.var then .blocked (c.foreign.filter fun d => Doomed cs d)
  else .starved

def finding (cs : List Candidate) (c : Candidate) : Finding := ⟨c.var, c.type, diagnosis cs c⟩

variable {cs : List Candidate} {c : Candidate} {name a b : String} {limit : Nat}

theorem unplaced_distinct (distinct : Distinct cs) (limit : Nat) : Distinct (unplaced cs limit) :=
  distinct.sublist (List.filter_sublist.map _)

theorem named_unplaced (distinct : Distinct cs) :
    named (unplaced cs limit) name = some c ↔
      named cs name = some c ∧ ¬ RankedWithin cs limit name := by
  constructor
  · intro found
    obtain ⟨member, rfl⟩ := named_some found
    obtain ⟨present, beyond⟩ := mem_unplaced.mp member
    exact ⟨named_of_mem distinct present, beyond⟩
  · rintro ⟨found, beyond⟩
    obtain ⟨member, rfl⟩ := named_some found
    exact named_of_mem (unplaced_distinct distinct limit) (mem_unplaced.mpr ⟨member, beyond⟩)

theorem not_rankedWithin_of_unranked (unranked : ¬ Ranked cs name) :
    ¬ RankedWithin cs limit name := by
  rintro ⟨r, _, ranked⟩
  exact unranked ⟨r, ranked⟩

theorem depends_unplaced (distinct : Distinct cs) :
    Depends (unplaced cs limit) a b ↔
      Depends cs a b ∧ ¬ RankedWithin cs limit a ∧ ¬ RankedWithin cs limit b := by
  simp only [Depends, Option.isSome_iff_exists, named_unplaced distinct]
  constructor
  · rintro ⟨c, ⟨found, beyond⟩, member, e, present, further⟩
    exact ⟨⟨c, found, member, e, present⟩, beyond, further⟩
  · rintro ⟨⟨c, found, member, e, present⟩, beyond, further⟩
    exact ⟨c, ⟨found, beyond⟩, member, e, present, further⟩

theorem Reaches.of_unplaced (distinct : Distinct cs) (path : Reaches (unplaced cs limit) a b) :
    Reaches cs a b :=
  TransGen.mono (fun _ _ edge => ((depends_unplaced distinct).mp edge).1) _ _ path

/-- A path to a candidate without a rank consists of unplaced candidates. -/
theorem Reaches.unplaced (distinct : Distinct cs) (unranked : ¬ Ranked cs b)
    (path : Reaches cs a b) : Reaches (unplaced cs limit) a b := by
  induction path using TransGen.head_induction_on with
  | single edge =>
    have before := Reaches.unranked (.single edge) unranked
    exact .single ((depends_unplaced distinct).mpr ⟨edge, not_rankedWithin_of_unranked before,
      not_rankedWithin_of_unranked unranked⟩)
  | @head a middle edge rest ih =>
    have further := Reaches.unranked rest unranked
    have before := Reaches.unranked (.single edge) further
    exact .head ((depends_unplaced distinct).mpr ⟨edge, not_rankedWithin_of_unranked before,
      not_rankedWithin_of_unranked further⟩) ih

theorem cyclic_unplaced (distinct : Distinct cs) (limit : Nat) :
    Reaches (unplaced cs limit) name name ↔ OnCycle cs name := by
  rw [onCycle_iff]
  constructor
  · exact Reaches.of_unplaced distinct
  · intro path
    exact path.unplaced distinct (onCycle_iff.mpr path).unranked

theorem connected_unplaced (distinct : Distinct cs) (cyclic : OnCycle cs a) (limit : Nat) :
    Reaches (unplaced cs limit) a b ∧ Reaches (unplaced cs limit) b a ↔ Connected cs a b := by
  constructor
  · rintro ⟨forth, back⟩
    exact ⟨(forth.of_unplaced distinct).to_reflTransGen, (back.of_unplaced distinct).to_reflTransGen⟩
  · rintro ⟨forth, back⟩
    by_cases same : a = b
    · subst same
      have circle := (cyclic_unplaced distinct limit).mpr cyclic
      exact ⟨circle, circle⟩
    · have there : Reaches cs a b := .of_reflTransGen forth same
      have here : Reaches cs b a := .of_reflTransGen back (Ne.symm same)
      exact ⟨there.unplaced distinct (here.unranked cyclic.unranked),
        here.unplaced distinct cyclic.unranked⟩

theorem missingNames_eq (cs : List Candidate) (c : Candidate) :
    missingNames cs c = absent cs c := by
  refine List.filter_congr fun d _ => ?_
  rw [Bool.eq_iff_iff, Bool.not_eq_true', ← Bool.not_eq_true, List.any_eq_true, decide_eq_true_eq,
    List.mem_map]
  simp only [beq_iff_eq]

theorem lacks_iff (distinct : Distinct cs) (member : c ∈ cs) :
    Lacks cs c.var ↔ absent cs c ≠ [] := by
  simp only [Lacks, named_of_mem distinct member, Option.mem_def, Option.some.injEq,
    exists_eq_left']

theorem isRoot_iff (distinct : Distinct cs) (member : c ∈ cs) :
    isRoot cs (.ofNodes (unplaced cs limit)) c = true ↔ OnCycle cs c.var ∨ Lacks cs c.var := by
  rw [isRoot, Bool.or_eq_true, table_reaches, cyclic_unplaced distinct, missingNames_eq,
    lacks_iff distinct member, Bool.not_eq_true', ← Bool.not_eq_true, List.isEmpty_iff]

theorem isDoomed_iff (distinct : Distinct cs) :
    isDoomed cs (unplaced cs limit) (.ofNodes (unplaced cs limit)) name = true ↔
      Doomed cs name := by
  simp only [isDoomed, List.any_eq_true, Bool.and_eq_true, Bool.or_eq_true, beq_iff_eq,
    table_reaches]
  constructor
  · rintro ⟨root, member, isRoot, rfl | path⟩
    · exact ⟨root.var, .refl, (isRoot_iff distinct (mem_unplaced.mp member).1).mp isRoot⟩
    · exact ⟨root.var, (path.of_unplaced distinct).to_reflTransGen,
        (isRoot_iff distinct (mem_unplaced.mp member).1).mp isRoot⟩
  · rintro ⟨root, path, cause⟩
    have stuck : Doomed cs root := ⟨root, .refl, cause⟩
    obtain ⟨c, found⟩ := Option.isSome_iff_exists.mp stuck.isName
    obtain ⟨member, rfl⟩ := named_some found
    refine ⟨c, mem_unplaced.mpr ⟨member, not_rankedWithin_of_unranked stuck.unranked⟩,
      (isRoot_iff distinct member).mpr cause, ?_⟩
    rcases reflTransGen_iff_eq_or_transGen.mp path with same | further
    · exact .inl same
    · exact .inr (Reaches.unplaced distinct stuck.unranked further)

theorem filter_unplaced (p : Candidate → Bool) :
    (unplaced cs limit).filter p = cs.filter fun d => p d && ¬ RankedWithin cs limit d.var :=
  List.filter_filter

theorem cycleMembers_eq (distinct : Distinct cs) (cyclic : OnCycle cs c.var) :
    cycleMembers (unplaced cs limit) (.ofNodes (unplaced cs limit)) c = component cs c.var := by
  rw [cycleMembers, component, filter_unplaced]
  congr 1
  refine List.filter_congr fun d _ => ?_
  rw [Bool.eq_iff_iff, Bool.and_eq_true, ReachTable.connected, Bool.and_eq_true, table_reaches,
    table_reaches, connected_unplaced distinct cyclic, decide_eq_true_eq, decide_eq_true_eq]
  refine ⟨fun both => both.1, fun connected => ⟨connected, ?_⟩⟩
  obtain ⟨_, back⟩ := (connected_unplaced distinct cyclic limit).mpr connected
  exact not_rankedWithin_of_unranked ((back.of_unplaced distinct).unranked cyclic.unranked)

theorem blockers_eq (distinct : Distinct cs) :
    blockers cs (unplaced cs limit) (.ofNodes (unplaced cs limit)) c =
      c.foreign.filter fun d => Doomed cs d := by
  refine List.filter_congr fun d _ => ?_
  rw [Bool.eq_iff_iff, Bool.and_eq_true, isDoomed_iff distinct, decide_eq_true_eq]
  refine ⟨fun both => both.2, fun doomed => ⟨?_, doomed⟩⟩
  obtain ⟨e, found⟩ := Option.isSome_iff_exists.mp doomed.isName
  have waiting : named (unplaced cs limit) d = some e :=
    (named_unplaced distinct).mpr ⟨found, not_rankedWithin_of_unranked doomed.unranked⟩
  obtain ⟨member, same⟩ := named_some waiting
  exact List.any_eq_true.mpr ⟨e, member, beq_iff_eq.mpr same⟩

/-- The cause that is found among the unplaced candidates is the true one. -/
theorem causeOf_eq (distinct : Distinct cs) :
    causeOf cs (unplaced cs limit) (.ofNodes (unplaced cs limit)) c = diagnosis cs c := by
  by_cases cyclic : OnCycle cs c.var
  · have circle := table_reaches.mpr ((cyclic_unplaced distinct limit).mpr cyclic)
    rw [causeOf, if_pos circle, diagnosis, if_pos cyclic, cycleMembers_eq distinct cyclic]
  · have straight : ¬ (ReachTable.ofNodes (unplaced cs limit)).reaches c.var c.var = true := by
      rw [table_reaches, cyclic_unplaced distinct]
      exact cyclic
    rw [causeOf, if_neg straight, diagnosis, if_neg cyclic, missingNames_eq, blockers_eq distinct]
    simp only [isDoomed_iff distinct, Bool.not_eq_true', List.isEmpty_eq_false_iff]

theorem filterMap_named (distinct : Distinct cs) {order : List Candidate}
    (included : ∀ c ∈ order, c ∈ cs) :
    (order.map (·.var)).filterMap (named cs) = order := by
  induction order with
  | nil => rfl
  | cons c rest ih =>
    rw [List.map_cons, List.filterMap_cons, named_of_mem distinct (included c List.mem_cons_self),
      ih fun d member => included d (List.mem_cons_of_mem _ member)]

theorem classify_unplaced (distinct : Distinct cs) (limit : Nat) :
    classify cs (resolve cs limit).unresolved = (unplaced cs limit).map (finding cs) := by
  have nodes : (resolve cs limit).unresolved.filterMap (named cs) = unplaced cs limit := by
    rw [resolve_unresolved distinct]
    exact filterMap_named distinct fun c member => (mem_unplaced.mp member).1
  have unfolded (names : List String) : classify cs names =
      (names.filterMap (named cs)).map fun c => ⟨c.var, c.type, causeOf cs
        (names.filterMap (named cs)) (.ofNodes (names.filterMap (named cs))) c⟩ := rfl
  rw [unfolded, nodes]
  simp only [causeOf_eq distinct]
  rfl

theorem classify_names (distinct : Distinct cs) (limit : Nat) :
    (classify cs (resolve cs limit).unresolved).map (·.var) = (resolve cs limit).unresolved := by
  rw [classify_unplaced distinct, resolve_unresolved distinct, List.map_map]
  rfl

theorem starved_iff (distinct : Distinct cs) (member : c ∈ cs) :
    diagnosis cs c = .starved ↔ Ranked cs c.var := by
  have isName := Option.isSome_of_eq_some (named_of_mem distinct member)
  have cyclic : OnCycle cs c.var → ¬ Ranked cs c.var := OnCycle.unranked
  have lacking : absent cs c ≠ [] → ¬ Ranked cs c.var :=
    fun some => ((lacks_iff distinct member).mpr some).unranked
  unfold diagnosis
  split
  · simpa only [reduceCtorEq, false_iff] using cyclic ‹_›
  · split
    · simpa only [reduceCtorEq, false_iff] using lacking ‹_›
    · split
      · simpa only [reduceCtorEq, false_iff] using Doomed.unranked ‹_›
      · rename_i free
        have ranked : Ranked cs c.var := ranked_of_not_doomed (named_of_mem distinct member) free
        simp only [ranked]

/-- Each unplaced candidate is explained once, in the order of extraction, by the dependencies
among all candidates; what is not a matter of rounds is told alike at every limit. -/
theorem classify_exact (distinct : Distinct cs) (limit : Nat) :
    classify cs (resolve cs limit).unresolved = (unplaced cs limit).map (finding cs) ∧
    (classify cs (resolve cs limit).unresolved).map (·.var) = (resolve cs limit).unresolved ∧
    ∀ f ∈ classify cs (resolve cs limit).unresolved, f.cause ≠ .starved →
      ∀ other, f ∈ classify cs (resolve cs other).unresolved := by
  refine ⟨classify_unplaced distinct limit, classify_names distinct limit, ?_⟩
  intro f listed lasting other
  rw [classify_unplaced distinct] at listed ⊢
  obtain ⟨c, waiting, rfl⟩ := List.mem_map.mp listed
  have member := (mem_unplaced.mp waiting).1
  have unranked : ¬ Ranked cs c.var := fun ranked => lasting ((starved_iff distinct member).mpr ranked)
  exact List.mem_map_of_mem (mem_unplaced.mpr ⟨member, not_rankedWithin_of_unranked unranked⟩)

theorem classify_exact_tangle : Distinct tangle ∧
    classify tangle (resolve tangle 2).unresolved =
      [⟨"top", "top", .starved⟩, ⟨"left", "left", .cycle ["left", "right"]⟩,
        ⟨"right", "right", .cycle ["left", "right"]⟩, ⟨"behind", "behind", .blocked ["left"]⟩,
        ⟨"lost", "lost", .missing ["absent"]⟩] := by
  have distinct : Distinct tangle := by decide
  exact ⟨distinct, (classify_exact distinct 2).1.trans (by decide)⟩

theorem placed_iff (distinct : Distinct cs) :
    name ∈ (resolve cs limit).placed.map (·.1) ↔ RankedWithin cs limit name := by
  rw [resolve_names distinct, name_mem_rankOrder]

/-- Candidates are short of rounds exactly if more rounds place them, and then as many rounds as
there are candidates do; all others are left at every limit. -/
theorem diagnosis_truthful (distinct : Distinct cs) (limit : Nat) :
    (classify cs (resolve cs limit).unresolved).map (·.var) = (resolve cs limit).unresolved ∧
    ∀ f ∈ classify cs (resolve cs limit).unresolved,
      (f.cause = .starved ↔ ∃ larger > limit, f.var ∈ (resolve cs larger).placed.map (·.1)) ∧
      (f.cause = .starved → f.var ∈ (resolve cs cs.length).placed.map (·.1)) ∧
      (f.cause ≠ .starved → ∀ other, f.var ∈ (resolve cs other).unresolved) := by
  refine ⟨classify_names distinct limit, ?_⟩
  intro f listed
  rw [classify_unplaced distinct] at listed
  obtain ⟨c, waiting, rfl⟩ := List.mem_map.mp listed
  obtain ⟨member, beyond⟩ := mem_unplaced.mp waiting
  have starved : diagnosis cs c = .starved ↔ Ranked cs c.var := starved_iff distinct member
  simp only [finding, starved, ne_eq, placed_iff distinct, resolve_unresolved distinct]
  refine ⟨⟨?_, ?_⟩, ranked_iff_within_length.mp, ?_⟩
  · rintro ⟨r, ranked⟩
    have later : limit < r := by
      by_contra early
      exact beyond ⟨r, Nat.le_of_not_lt early, ranked⟩
    exact ⟨r, later, r, le_rfl, ranked⟩
  · rintro ⟨_, _, r, _, ranked⟩
    exact ⟨r, ranked⟩
  · intro lasting other
    exact List.mem_map_of_mem (mem_unplaced.mpr ⟨member, not_rankedWithin_of_unranked lasting⟩)

theorem diagnosis_truthful_tangle : Distinct tangle ∧
    (⟨"top", "top", .starved⟩ ∈ classify tangle (resolve tangle 2).unresolved ∧
      "top" ∈ (resolve tangle 7).placed.map (·.1)) ∧
    (⟨"behind", "behind", .blocked ["left"]⟩ ∈ classify tangle (resolve tangle 2).unresolved ∧
      ∀ other, "behind" ∈ (resolve tangle other).unresolved) := by
  have distinct : Distinct tangle := by decide
  obtain ⟨_, truthful⟩ := diagnosis_truthful distinct 2
  have top : ⟨"top", "top", .starved⟩ ∈ classify tangle (resolve tangle 2).unresolved := by
    rw [classify_unplaced distinct]
    decide
  have behind : ⟨"behind", "behind", .blocked ["left"]⟩ ∈
      classify tangle (resolve tangle 2).unresolved := by
    rw [classify_unplaced distinct]
    decide
  exact ⟨distinct, ⟨top, (truthful _ top).2.1 rfl⟩,
    behind, (truthful _ behind).2.2 Cause.noConfusion⟩

end Schemata.Resolution
