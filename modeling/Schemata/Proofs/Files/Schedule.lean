import Schemata.Proofs.Files.Footprint

/-! Several commands on one tree. Where each leaves the files of the others alone, every one of them
goes as it would go alone, in whatever order they take their steps; so the order decides neither
what they answer nor what they leave behind. -/
namespace Schemata.Files

open Schemata.Path Schemata.Files.Tree

variable {α β : Type} {t u u' : Tree} {q : Place}

namespace Footprint

variable {f g : Footprint} {s s' : Tree}

/-- What another command has changed stays as it is. -/
theorem LeavesAlone.untouched (alone : LeavesAlone t f g) (alone' : LeavesAlone t g f)
    (other : g.Bounded t s) (changed : s.node? q ≠ t.node? q) (there : u.node? q = s.node? q)
    (bounded : f.Bounded u u') : u'.node? q = u.node? q := by
  by_cases root : q = []
  · rw [root, node?_root, node?_root]
  · refine (bounded q).resolve_right fun own => ?_
    rcases (other q).resolve_left changed with place | ⟨on, _, directory⟩
    · refine alone'.products q place ?_
      rcases own with own | ⟨own, _⟩
      · exact places_look own root
      · exact ways_subset own
    · rcases own with own | ⟨_, missing, _⟩
      · exact alone.products q own (ways_subset on)
      · rw [there, directory] at missing
        cases missing

/-- A plan that keeps to its files, where it is carried out alone. -/
def Guards (f : Footprint) : Plan α → Tree → Prop
  | .done _, _ => True
  | .ask o next, s =>
    f.Names o ∧ Prepared s o ∧ f.Guards (next (s.run o.perform).1) (s.run o.perform).2

theorem guards_bind (p : Plan α) (k : α → Plan β) (s : Tree) :
    f.Guards (p >>= k) s ↔
      f.Guards p s ∧ f.Guards (k (s.run p.perform).1) (s.run p.perform).2 := by
  change f.Guards (p.bind k) s ↔ _
  induction p generalizing s with
  | done a => exact (true_and _).symm ▸ Iff.rfl
  | ask o next ih =>
    rw [Plan.bind, Guards, Guards, ih, Plan.run_ask, and_assoc, and_assoc]

end Footprint

open Footprint

/-- A command that is under way, and the tree that it would have left behind by itself. -/
structure Member (α : Type) where
  footprint : Footprint
  plan : Plan α
  alone : Tree

/-- What a command would answer and leave behind by itself. -/
def Member.outcome (m : Member α) : α × Tree := m.alone.run m.plan.perform

/-- The tree `u` that commands on the tree `t` share: what any of them has changed is changed in it,
and nothing else is. -/
structure Shared (t : Tree) (members : List (Member α)) (u : Tree) : Prop where
  bounded : ∀ m ∈ members, m.footprint.Bounded t m.alone
  guarded : ∀ m ∈ members, m.footprint.Guards m.plan m.alone
  kept : ∀ m ∈ members, ∀ q, m.alone.node? q ≠ t.node? q → u.node? q = m.alone.node? q
  changed : ∀ q, u.node? q ≠ t.node? q → ∃ m ∈ members, m.alone.node? q = u.node? q

/-- Commands of which each leaves the files of the others alone. -/
structure Apart (t : Tree) (footprints : List Footprint) : Prop where
  pairwise : footprints.Pairwise fun f g => LeavesAlone t f g ∧ LeavesAlone t g f
  absolute : ∀ f ∈ footprints, ∀ path ∈ f.products, isAbsolute path.toList = true

variable {front behind : List (Member α)} {m n : Member α}

theorem Apart.others (apart : Apart t ((front ++ m :: behind).map (·.footprint)))
    (other : n ∈ front ++ behind) :
    LeavesAlone t n.footprint m.footprint ∧ LeavesAlone t m.footprint n.footprint := by
  have pairs := List.pairwise_map.mp apart.pairwise
  obtain ⟨_, rest, across⟩ := List.pairwise_append.mp pairs
  rcases List.mem_append.mp other with before | after
  · exact across n before m List.mem_cons_self
  · exact (List.pairwise_cons.mp rest).1 n after |>.symm

theorem mem_insert_iff : n ∈ front ++ m :: behind ↔ n = m ∨ n ∈ front ++ behind := by
  simp only [List.mem_append, List.mem_cons]
  exact or_left_comm

theorem Shared.sees (shared : Shared t (front ++ m :: behind) u)
    (apart : Apart t ((front ++ m :: behind).map (·.footprint))) :
    Sees t m.footprint m.alone u := by
  intro q
  have inside : m ∈ front ++ m :: behind := mem_insert_iff.mpr (.inl rfl)
  by_cases own : m.alone.node? q = t.node? q
  · by_cases changed : u.node? q = t.node? q
    · exact .inl (changed.trans own.symm)
    · obtain ⟨n, member, same⟩ := shared.changed q changed
      rcases mem_insert_iff.mp member with rfl | other
      · exact .inl same.symm
      · obtain ⟨alone, alone'⟩ := apart.others other
        exact .inr ⟨own, alone.elsewhere alone' (shared.bounded n member) same changed⟩
  · exact .inl (shared.kept m inside q own)

/-- One step of one command: it goes as it would go alone, and the tree stays shared. -/
theorem Shared.step {f : Footprint} {o : Operation} {next : o.Answer → Plan α} {s : Tree}
    (shared : Shared t (front ++ ⟨f, .ask o next, s⟩ :: behind) u)
    (apart : Apart t ((front ++ ⟨f, .ask o next, s⟩ :: behind).map (·.footprint))) :
    (s.run o.perform).1 = (u.run o.perform).1 ∧
      Shared t (front ++ ⟨f, next (s.run o.perform).1, (s.run o.perform).2⟩ :: behind)
        (u.run o.perform).2 := by
  have mine : ⟨f, .ask o next, s⟩ ∈ front ++ (⟨f, .ask o next, s⟩ : Member α) :: behind :=
    mem_insert_iff.mpr (.inl rfl)
  have others {n : Member α} (other : n ∈ front ++ behind) :
      n ∈ front ++ (⟨f, .ask o next, s⟩ : Member α) :: behind := mem_insert_iff.mpr (.inr other)
  have absolute := apart.absolute f (List.mem_map_of_mem mine)
  have bounded : f.Bounded t s := shared.bounded _ mine
  have kept : ∀ q, s.node? q ≠ t.node? q → u.node? q = s.node? q := shared.kept _ mine
  obtain ⟨named, prepared, later⟩ := shared.guarded _ mine
  have common := perform_bounded absolute named u
  obtain ⟨same, alike⟩ : _ ∧ Alike s _ u _ :=
    perform_alike absolute bounded (shared.sees apart) named prepared
  -- Of the four fields only `kept` needs the others: what they have changed must outlive the step.
  refine ⟨same, ?_, ?_, ?_, ?_⟩
  · intro n member
    rcases mem_insert_iff.mp member with rfl | other
    · exact bounded.trans (perform_bounded absolute named s)
    · exact shared.bounded n (others other)
  · intro n member
    rcases mem_insert_iff.mp member with rfl | other
    · exact later
    · exact shared.guarded n (others other)
  · intro n member q changed
    obtain ⟨left, right⟩ := alike q
    rcases mem_insert_iff.mp member with rfl | other
    · by_cases moved : (s.run o.perform).2.node? q = s.node? q
      · by_cases here : (u.run o.perform).2.node? q = u.node? q
        · exact here.trans ((kept q (moved ▸ changed)).trans moved.symm)
        · exact (right here).symm
      · exact left moved
    · obtain ⟨alone, alone'⟩ := apart.others other
      have there := shared.kept n (others other) q changed
      rw [← there]
      exact alone'.untouched alone (shared.bounded n (others other)) changed there common
  · intro q changed
    obtain ⟨left, right⟩ := alike q
    by_cases here : (u.run o.perform).2.node? q = u.node? q
    · rw [here] at changed ⊢
      obtain ⟨n, member, same⟩ := shared.changed q changed
      rcases mem_insert_iff.mp member with rfl | other
      · refine ⟨_, mem_insert_iff.mpr (.inl rfl), ?_⟩
        by_cases moved : (s.run o.perform).2.node? q = s.node? q
        · exact moved.trans same
        · exact (left moved).symm.trans here
      · exact ⟨n, mem_insert_iff.mpr (.inr other), same⟩
    · exact ⟨_, mem_insert_iff.mpr (.inl rfl), right here⟩

/-- Whatever steps are taken, each command is still to answer what it would answer alone. -/
theorem Shared.steps {members : List (Member α)} {plans : List (Plan α)}
    (shared : Shared t members u) (apart : Apart t (members.map (·.footprint)))
    (steps : Relation.ReflTransGen Step (members.map (·.plan), u) (plans, u')) :
    ∃ later : List (Member α), later.map (·.plan) = plans ∧
      later.map (·.outcome) = members.map (·.outcome) ∧ Shared t later u' := by
  -- The induction is on the steps from the front, so that the members of the moment go along.
  generalize start : (members.map (·.plan), u) = course at steps
  induction steps using Relation.ReflTransGen.head_induction_on generalizing members u with
  | refl =>
    cases start
    exact ⟨members, rfl, rfl, shared⟩
  | head first _ ih =>
    cases first with
    | mk front o next behind v =>
      obtain ⟨plans, rfl⟩ := Prod.mk.inj start
      obtain ⟨before, rest, rfl, rfl, tail⟩ := List.map_eq_append_iff.mp plans
      obtain ⟨⟨f, plan, s⟩, after, rfl, rfl, rfl⟩ := List.map_eq_cons_iff.mp tail
      obtain ⟨same, shared⟩ := shared.step apart
      have footprints := apart
      rw [List.map_append, List.map_cons] at footprints
      obtain ⟨later, ends, outcomes, shared⟩ := ih shared
        (by rw [List.map_append, List.map_cons]; exact footprints)
        (by rw [List.map_append, List.map_cons, same])
      refine ⟨later, ends, outcomes.trans ?_, shared⟩
      rw [List.map_append, List.map_append, List.map_cons, List.map_cons]
      rfl

/-- A command that is yet to begin. -/
def Member.start (t : Tree) (job : Footprint × Plan α) : Member α := ⟨job.1, job.2, t⟩

theorem Shared.start {jobs : List (Footprint × Plan α)}
    (guarded : ∀ job ∈ jobs, job.1.Guards job.2 t) :
    Shared t (jobs.map (Member.start t)) t := by
  refine ⟨?_, ?_, ?_, ?_⟩
  · intro m member
    obtain ⟨job, _, rfl⟩ := List.mem_map.mp member
    exact .refl job.1 t
  · intro m member
    obtain ⟨job, inside, rfl⟩ := List.mem_map.mp member
    exact guarded job inside
  · intro m member q changed
    obtain ⟨job, _, rfl⟩ := List.mem_map.mp member
    exact absurd rfl changed
  · exact fun q changed => absurd rfl changed

theorem Member.outcome_of_done {members : List (Member α)} {results : List α}
    (ends : members.map (·.plan) = results.map .done) :
    results = members.map (·.outcome.1) ∧ ∀ m ∈ members, m.outcome.2 = m.alone := by
  induction members generalizing results with
  | nil => exact ⟨List.map_eq_nil_iff.mp ends.symm, nofun⟩
  | cons m rest ih =>
    obtain ⟨a, others, rfl, plan, tail⟩ := List.map_eq_cons_iff.mp ends.symm
    obtain ⟨f, _, s⟩ := m
    cases plan
    obtain ⟨answers, alone⟩ := ih tail.symm
    exact ⟨congrArg (a :: ·) answers, List.forall_mem_cons.mpr ⟨rfl, alone⟩⟩

/-- Commands that have come to their ends have answered what each would have answered alone, and
have changed what each would have changed. -/
theorem Finishes.outcomes {jobs : List (Footprint × Plan α)} {results : List α}
    (apart : Apart t (jobs.map (·.1))) (guarded : ∀ job ∈ jobs, job.1.Guards job.2 t)
    (finishes : Finishes (jobs.map (·.2)) t results u) :
    results = jobs.map (fun job => (t.run job.2.perform).1) ∧
      (∀ job ∈ jobs, ∀ q, (t.run job.2.perform).2.node? q ≠ t.node? q →
        u.node? q = (t.run job.2.perform).2.node? q) ∧
      ∀ q, u.node? q ≠ t.node? q → ∃ job ∈ jobs, (t.run job.2.perform).2.node? q = u.node? q := by
  have start := Shared.start guarded
  have plans : (jobs.map (Member.start t)).map (·.plan) = jobs.map (·.2) := by
    rw [List.map_map]
    rfl
  have footprints : (jobs.map (Member.start t)).map (·.footprint) = jobs.map (·.1) := by
    rw [List.map_map]
    rfl
  rw [Finishes, ← plans] at finishes
  obtain ⟨later, ends, outcomes, shared⟩ := start.steps (footprints ▸ apart) finishes
  obtain ⟨answers, alone⟩ := Member.outcome_of_done ends
  have same : later.map (·.outcome) = jobs.map fun job => t.run job.2.perform := by
    rw [outcomes, List.map_map]
    rfl
  refine ⟨?_, fun job inside q changed => ?_, fun q changed => ?_⟩
  · have firsts := congrArg (List.map Prod.fst) same
    rw [List.map_map, List.map_map] at firsts
    exact answers.trans firsts
  · obtain ⟨m, member, form⟩ := List.mem_map.mp (same ▸ List.mem_map_of_mem inside)
    rw [← form, alone m member] at changed ⊢
    exact shared.kept m member q changed
  · obtain ⟨m, member, there⟩ := shared.changed q changed
    obtain ⟨job, inside, form⟩ := List.mem_map.mp (same ▸ List.mem_map_of_mem member)
    refine ⟨job, inside, ?_⟩
    rw [form, alone m member]
    exact there

/-- The order of the steps decides nothing. -/
theorem Finishes.deterministic {jobs : List (Footprint × Plan α)} {results results' : List α}
    (apart : Apart t (jobs.map (·.1))) (guarded : ∀ job ∈ jobs, job.1.Guards job.2 t)
    (first : Finishes (jobs.map (·.2)) t results u)
    (second : Finishes (jobs.map (·.2)) t results' u') :
    results = results' ∧ ∀ q, u.node? q = u'.node? q := by
  obtain ⟨answers, kept, changed⟩ := first.outcomes apart guarded
  obtain ⟨answers', kept', changed'⟩ := second.outcomes apart guarded
  refine ⟨answers.trans answers'.symm, fun q => ?_⟩
  by_cases moved : u.node? q = t.node? q
  · by_cases moved' : u'.node? q = t.node? q
    · exact moved.trans moved'.symm
    · obtain ⟨job, member, same⟩ := changed' q moved'
      rw [← same] at moved' ⊢
      exact kept job member q moved'
  · obtain ⟨job, member, same⟩ := changed q moved
    rw [← same] at moved ⊢
    exact (kept' job member q moved).symm

end Schemata.Files
