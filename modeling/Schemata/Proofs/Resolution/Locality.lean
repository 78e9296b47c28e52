import Schemata.Proofs.Resolution.Deferral
import Schemata.Proofs.Resolution.Diagnosis

/-! What becomes of a candidate depends only on those below it. Two lists that agree on all names
that a name leads to give it the same rank, and its dependencies the same paths and circles; so it
is placed alike or explained alike, whatever else the lists hold and in which order. -/
namespace Schemata.Resolution

open Relation

/-- The candidate of a name waits for another name, declared or not. -/
def Uses (cs : List Candidate) (a b : String) : Prop := ∃ c, named cs a = some c ∧ b ∈ c.foreign

/-- Each name that a name leads to is that of one candidate in both lists, or of none in either. -/
def SameBelow (cs ds : List Candidate) (name : String) : Prop :=
  ∀ other, ReflTransGen (Uses cs) name other → named cs other = named ds other

/-- One cause, up to the order in which the members of a cycle are listed. -/
def Cause.Similar : Cause → Cause → Prop
  | .cycle members, .cycle others => members.Perm others
  | first, second => first = second

/-- Every finding on a name comes up in the other run too. -/
def ExplainedAlike (cs ds : List Candidate) (limit : Nat) (name : String) : Prop :=
  ∀ f ∈ classify cs (resolve cs limit).unresolved, f.var = name →
    ∃ g ∈ classify ds (resolve ds limit).unresolved,
      g.var = name ∧ g.type = f.type ∧ f.cause.Similar g.cause

/-- Two runs end alike for a name. -/
structure Alike (cs ds : List Candidate) (limit : Nat) (name : String) : Prop where
  placed : ∀ p, (name, p) ∈ (resolve cs limit).placed ↔ (name, p) ∈ (resolve ds limit).placed
  unresolved : name ∈ (resolve cs limit).unresolved ↔ name ∈ (resolve ds limit).unresolved
  explained : ExplainedAlike cs ds limit name
  explainedBack : ExplainedAlike ds cs limit name

variable {cs ds more : List Candidate} {c : Candidate} {a b name : String} {p : Placed}
  {r limit : Nat}

theorem SameBelow.here (same : SameBelow cs ds name) : named cs name = named ds name :=
  same name .refl

theorem SameBelow.along (same : SameBelow cs ds a) (path : ReflTransGen (Uses cs) a b) :
    SameBelow cs ds b :=
  fun other further => same other (path.trans further)

theorem SameBelow.foreign (same : SameBelow cs ds name) (found : named cs name = some c)
    {d : String} (member : d ∈ c.foreign) : SameBelow cs ds d :=
  same.along (.single ⟨c, found, member⟩)

theorem SameBelow.symm (same : SameBelow cs ds name) : SameBelow ds cs name := by
  have back : ∀ other, ReflTransGen (Uses ds) name other → ReflTransGen (Uses cs) name other := by
    intro other path
    induction path with
    | refl => exact .refl
    | tail _ edge ih =>
      obtain ⟨c, found, member⟩ := edge
      exact ih.tail ⟨c, (same _ ih).trans found, member⟩
  intro other path
  exact (same other (back other path)).symm

theorem HasRank.transfer (same : SameBelow cs ds name) (ranked : HasRank cs name r) :
    HasRank ds name r := by
  induction ranked with
  | above found ranks below ih =>
    exact .above (same.here.symm.trans found) ranks fun d member =>
      ih d member (same.foreign found member)

theorem SameBelow.rankedWithin (same : SameBelow cs ds name) :
    RankedWithin cs limit name ↔ RankedWithin ds limit name :=
  exists_congr fun _ => and_congr_right fun _ =>
    ⟨HasRank.transfer same, HasRank.transfer same.symm⟩

theorem SameBelow.ranked (same : SameBelow cs ds name) : Ranked cs name ↔ Ranked ds name :=
  exists_congr fun _ => ⟨HasRank.transfer same, HasRank.transfer same.symm⟩

theorem SameBelow.doomed (same : SameBelow cs ds name) : Doomed cs name ↔ Doomed ds name := by
  rw [doomed_iff, doomed_iff, same.here, same.ranked]

theorem Depends.uses (edge : Depends cs a b) : Uses cs a b := by
  obtain ⟨c, found, member, _⟩ := edge
  exact ⟨c, found, member⟩

theorem Depends.transfer (same : SameBelow cs ds a) (edge : Depends cs a b) : Depends ds a b := by
  obtain ⟨c, found, member, isName⟩ := edge
  exact ⟨c, same.here.symm.trans found, member, (same.foreign found member).here ▸ isName⟩

theorem uses_of_path (path : ReflTransGen (Depends cs) a b) : ReflTransGen (Uses cs) a b :=
  ReflTransGen.mono (fun _ _ edge => edge.uses) _ _ path

theorem path_transfer (same : SameBelow cs ds a) (path : ReflTransGen (Depends cs) a b) :
    ReflTransGen (Depends ds) a b := by
  induction path with
  | refl => exact .refl
  | tail before edge ih => exact ih.tail (edge.transfer (same.along (uses_of_path before)))

theorem Connected.transfer (same : SameBelow cs ds a) (connected : Connected cs a b) :
    Connected ds a b :=
  ⟨path_transfer same connected.1,
    path_transfer (same.along (uses_of_path connected.1)) connected.2⟩

theorem OnCycle.transfer (same : SameBelow cs ds name) (cyclic : OnCycle cs name) :
    OnCycle ds name := by
  obtain ⟨other, differs, forth, back⟩ := cyclic
  have connected : Connected ds name other :=
    Connected.transfer same ⟨forth.to_reflTransGen, back.to_reflTransGen⟩
  exact ⟨other, differs, .of_reflTransGen connected.1 differs.symm,
    .of_reflTransGen connected.2 differs⟩

theorem SameBelow.onCycle (same : SameBelow cs ds name) : OnCycle cs name ↔ OnCycle ds name :=
  ⟨OnCycle.transfer same, OnCycle.transfer same.symm⟩

theorem SameBelow.absent (same : SameBelow cs ds name) (found : named cs name = some c) :
    absent cs c = absent ds c := by
  refine List.filter_congr fun d member => decide_eq_decide.mpr (not_congr ?_)
  rw [← named_isSome, ← named_isSome, (same.foreign found member).here]

theorem mem_component : b ∈ component cs a ↔ b ∈ cs.map (·.var) ∧ Connected cs a b := by
  simp only [component, List.mem_map, List.mem_filter, decide_eq_true_eq]
  constructor
  · rintro ⟨c, ⟨present, connected⟩, rfl⟩
    exact ⟨⟨c, present, rfl⟩, connected⟩
  · rintro ⟨⟨c, present, rfl⟩, connected⟩
    exact ⟨c, ⟨present, connected⟩, rfl⟩

theorem component_subset (same : SameBelow cs ds name) :
    component cs name ⊆ component ds name := by
  intro other member
  obtain ⟨isName, connected⟩ := mem_component.mp member
  have there := (same.along (uses_of_path connected.1)).here
  rw [← named_isSome, there, named_isSome] at isName
  exact mem_component.mpr ⟨isName, connected.transfer same⟩

theorem component_perm (distinct : Distinct cs) (others : Distinct ds)
    (same : SameBelow cs ds name) : (component cs name).Perm (component ds name) := by
  refine (List.perm_ext_iff_of_nodup ?_ ?_).mpr fun other =>
    ⟨fun member => component_subset same member, fun member => component_subset same.symm member⟩
  · exact distinct.sublist (List.filter_sublist.map _)
  · exact others.sublist (List.filter_sublist.map _)

theorem Cause.Similar.of_eq {first second : Cause} (equal : first = second) :
    first.Similar second := by
  subst equal
  cases first with
  | cycle members => exact .refl _
  | _ => rfl

theorem diagnosis_similar (distinct : Distinct cs) (others : Distinct ds)
    (same : SameBelow cs ds c.var) (found : named cs c.var = some c) :
    (diagnosis cs c).Similar (diagnosis ds c) := by
  by_cases cyclic : OnCycle cs c.var
  · rw [diagnosis, if_pos cyclic, diagnosis, if_pos (same.onCycle.mp cyclic)]
    exact component_perm distinct others same
  · -- Off the circles, all that the diagnosis asks about lies below the candidate.
    have straight : ¬ OnCycle ds c.var := fun circle => cyclic (same.onCycle.mpr circle)
    have blocked : (c.foreign.filter fun d => Doomed cs d) =
        c.foreign.filter fun d => Doomed ds d :=
      List.filter_congr fun d member => decide_eq_decide.mpr (same.foreign found member).doomed
    apply Cause.Similar.of_eq
    rw [diagnosis, if_neg cyclic, diagnosis, if_neg straight, same.absent found, blocked]
    simp only [same.doomed]

/-- The final statement of a placed candidate, from the list and the limit alone. -/
theorem mem_placed (distinct : Distinct cs) (listed : Listed cs) :
    (name, p) ∈ (resolve cs limit).placed ↔ RankedWithin cs limit name ∧
      ∃ c, named cs name = some c ∧ p = ⟨c.type, c.parameters, settle (willDefer cs) c⟩ := by
  constructor
  · intro member
    refine ⟨(placed_iff distinct).mp (List.mem_map_of_mem member), ?_⟩
    obtain ⟨c, present, entry, _⟩ := placed_settled distinct listed member
    obtain ⟨rfl, rfl⟩ := Prod.mk.inj entry
    exact ⟨c, named_of_mem distinct present, rfl⟩
  · rintro ⟨within, c, found, rfl⟩
    obtain ⟨⟨_, q⟩, member, rfl⟩ := List.mem_map.mp ((placed_iff distinct).mpr within)
    obtain ⟨e, present, entry, _⟩ := placed_settled distinct listed member
    obtain ⟨rfl, rfl⟩ := Prod.mk.inj entry
    obtain rfl := Option.some.inj (found.symm.trans (named_of_mem distinct present))
    exact member

theorem settle_willDefer (same : SameBelow cs ds name) (found : named cs name = some c)
    (listed : c.statement.init.identifiers ⊆ c.dependencies) :
    settle (willDefer cs) c = settle (willDefer ds) c := by
  refine settle_congr fun other mentioned => ?_
  have dependency := listed (Expr.mem_identifiers.mpr mentioned)
  have below : SameBelow cs ds other := by
    by_cases own : other = c.var
    · exact own ▸ (named_some found).2 ▸ same
    · exact same.foreign found (List.mem_filter.mpr ⟨dependency, decide_eq_true own⟩)
  rw [willDefer, willDefer, below.here]

theorem placed_transfer (distinct : Distinct cs) (others : Distinct ds) (listed : Listed cs)
    (otherListed : Listed ds) (same : SameBelow cs ds name)
    (member : (name, p) ∈ (resolve cs limit).placed) :
    (name, p) ∈ (resolve ds limit).placed := by
  obtain ⟨within, c, found, rfl⟩ := (mem_placed distinct listed).mp member
  rw [settle_willDefer same found (listed c (named_some found).1)]
  exact (mem_placed others otherListed).mpr
    ⟨same.rankedWithin.mp within, c, same.here.symm.trans found, rfl⟩

theorem mem_unresolved (distinct : Distinct cs) : name ∈ (resolve cs limit).unresolved ↔
    (named cs name).isSome ∧ ¬ RankedWithin cs limit name := by
  rw [resolve_unresolved distinct, List.mem_map, named_isSome, List.mem_map]
  constructor
  · rintro ⟨c, waiting, rfl⟩
    obtain ⟨present, beyond⟩ := mem_unplaced.mp waiting
    exact ⟨⟨c, present, rfl⟩, beyond⟩
  · rintro ⟨⟨c, present, rfl⟩, beyond⟩
    exact ⟨c, mem_unplaced.mpr ⟨present, beyond⟩, rfl⟩

theorem explained_alike (distinct : Distinct cs) (others : Distinct ds)
    (same : SameBelow cs ds name) : ExplainedAlike cs ds limit name := by
  intro f listed own
  rw [classify_unplaced distinct] at listed
  obtain ⟨c, waiting, rfl⟩ := List.mem_map.mp listed
  obtain ⟨present, beyond⟩ := mem_unplaced.mp waiting
  subst own
  have found : named cs c.var = some c := named_of_mem distinct present
  have there : c ∈ ds := (named_some (same.here.symm.trans found)).1
  refine ⟨finding ds c, ?_, rfl, rfl, diagnosis_similar distinct others same found⟩
  rw [classify_unplaced others]
  exact List.mem_map_of_mem
    (mem_unplaced.mpr ⟨there, fun within => beyond (same.rankedWithin.mpr within)⟩)

theorem alike_of_sameBelow (distinct : Distinct cs) (others : Distinct ds) (listed : Listed cs)
    (otherListed : Listed ds) (same : SameBelow cs ds name) : Alike cs ds limit name where
  placed _ := ⟨placed_transfer distinct others listed otherListed same,
    placed_transfer others distinct otherListed listed same.symm⟩
  unresolved := by
    rw [mem_unresolved distinct, mem_unresolved others, same.here, same.rankedWithin]
  explained := explained_alike distinct others same
  explainedBack := explained_alike others distinct same.symm

/-- Candidates that a name does not lead to can be added anywhere. -/
theorem sameBelow_of_perm (distinct : Distinct ds) (order : ds.Perm (cs ++ more))
    (apart : ∀ c ∈ more, ¬ ReflTransGen (Uses cs) name c.var) : SameBelow cs ds name := by
  intro other path
  cases found : named cs other with
  | some c =>
    obtain ⟨present, rfl⟩ := named_some found
    exact (named_of_mem distinct (order.mem_iff.mpr (List.mem_append_left _ present))).symm
  | none =>
    cases extra : named ds other with
    | none => rfl
    | some d =>
      obtain ⟨present, rfl⟩ := named_some extra
      rcases List.mem_append.mp (order.mem_iff.mp present) with old | new
      · have isName := named_isSome.mpr (List.mem_map_of_mem old)
        rw [found] at isName
        contradiction
      · exact absurd path (apart d new)

/-- What becomes of a name is decided by the candidates that it leads to. So it is the same in every
order of the declarations, and with or without others that it does not lead to. -/
theorem resolution_local (distinct : Distinct cs) (others : Distinct ds) (listed : Listed cs)
    (otherListed : Listed ds) (limit : Nat) :
    (∀ name, SameBelow cs ds name → Alike cs ds limit name) ∧
    (ds.Perm cs → ∀ name, Alike cs ds limit name) ∧
    ∀ more, ds.Perm (cs ++ more) → ∀ name,
      (∀ c ∈ more, ¬ ReflTransGen (Uses cs) name c.var) → Alike cs ds limit name := by
  have alike (name : String) (same : SameBelow cs ds name) : Alike cs ds limit name :=
    alike_of_sameBelow distinct others listed otherListed same
  refine ⟨alike, ?_, ?_⟩
  · intro order name
    rw [← List.append_nil cs] at order
    exact alike name (sameBelow_of_perm others order fun _ member => absurd member List.not_mem_nil)
  · intro more order name apart
    exact alike name (sameBelow_of_perm others order apart)

/-- Waits for a circle that does not wait for it. -/
def stray : Candidate :=
  { type := "stray", var := "stray", dependencies := ["left"]
    statement := { name := "stray", init := .ident "left" } }

theorem tangle_resolution_local : Distinct tangle ∧ Distinct (tangle.reverse ++ [stray]) ∧
    Listed tangle ∧ Listed (tangle.reverse ++ [stray]) ∧
    ∃ f ∈ classify (tangle.reverse ++ [stray]) (resolve (tangle.reverse ++ [stray]) 2).unresolved,
      f.var = "left" ∧ ∃ members, f.cause = .cycle members ∧ members.Perm ["left", "right"] := by
  have distinct : Distinct tangle := by decide
  have others : Distinct (tangle.reverse ++ [stray]) := by decide
  have listed : Listed tangle := by decide
  have otherListed : Listed (tangle.reverse ++ [stray]) := by decide
  have unused : ∀ c ∈ tangle, "stray" ∉ c.foreign := by decide
  have apart : ∀ c ∈ [stray], ¬ ReflTransGen (Uses tangle) "left" c.var := by
    intro c member path
    obtain rfl := List.mem_singleton.mp member
    rcases ReflTransGen.cases_tail path with same | ⟨_, _, user, found, used⟩
    · exact absurd same (by decide)
    · exact unused user (named_some found).1 used
  have alike := (resolution_local distinct others listed otherListed 2).2.2 [stray]
    ((List.reverse_perm tangle).append_right _) "left" apart
  have left : ⟨"left", "left", .cycle ["left", "right"]⟩ ∈
      classify tangle (resolve tangle 2).unresolved := by
    rw [classify_unplaced distinct]
    decide
  obtain ⟨f, present, own, _, similar⟩ := alike.explained _ left rfl
  refine ⟨distinct, others, listed, otherListed, f, present, own, ?_⟩
  cases cause : f.cause with
  | cycle members =>
    rw [cause] at similar
    exact ⟨members, rfl, similar.symm⟩
  | _ =>
    rw [cause] at similar
    contradiction

end Schemata.Resolution
