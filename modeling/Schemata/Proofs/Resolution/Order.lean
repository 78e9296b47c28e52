import Schemata.Proofs.Compilation.Candidate
import Schemata.Proofs.Resolution.Rounds

/-! The order of placed validators. Whatever one depends on stands in front of it, and one that
mentions itself does so only under `z.lazy`; so the constants can be evaluated from first to last. -/
namespace Schemata

/-- Each statement mentions only names in front of it, and its own one in a body that is evaluated
later. -/
def DefinedBeforeUse (statements : List Statement) : Prop :=
  ∀ before s after, statements = before ++ s :: after →
    (∀ name ∈ s.init.mentions, name ∈ before.map (·.name) ∨ name = s.name) ∧
    (s.name ∈ s.init.mentions → ∃ body, s.init = .zod "lazy" [.arrow body])

/-- The statements can be evaluated in order where the names `bound` have a value already. -/
def Loads (bound : List String) : List Statement → Prop
  | [] => True
  | s :: rest => (∀ name ∈ s.init.reads, name ∈ bound) ∧ Loads (bound ++ [s.name]) rest

theorem DefinedBeforeUse.loads {statements : List Statement}
    (ordered : DefinedBeforeUse statements) : Loads [] statements := by
  have loads_from (before rest : List Statement) (split : statements = before ++ rest) :
      Loads (before.map (·.name)) rest := by
    induction rest generalizing before with
    | nil => trivial
    | cons s rest ih =>
      obtain ⟨mentioned, deferred⟩ := ordered before s rest split
      refine ⟨fun name read => ?_, ?_⟩
      · rcases mentioned name (Expr.reads_subset _ read) with earlier | rfl
        · exact earlier
        · obtain ⟨body, form⟩ := deferred (Expr.reads_subset _ read)
          rw [form] at read
          contradiction
      · have next := ih (before ++ [s]) (by rw [split, List.append_assoc]; rfl)
        rwa [List.map_append] at next
  exact loads_from [] statements rfl

namespace Resolution

/-- A candidate's final statement, given which validators hide their fields from it. -/
def settle (deferred : String → Bool) (c : Candidate) : Statement :=
  let erased := { c.statement with init := c.statement.init.eraseLookups deferred }
  if c.isSelfReferencing then erased.defer c.reference else erased

variable {cs order front back : List Candidate} {c : Candidate} {before after placed : Placements}
  {p : String × Placed} {deferred : String → Bool} {limit : Nat} {d : String}

/-- A validator's foreign dependencies stand in front of it. -/
theorem rankOrder_foreign (distinct : Distinct cs) (split : rankOrder cs limit = front ++ c :: back)
    (member : d ∈ c.foreign) : d ∈ front.map (·.var) := by
  induction limit generalizing back with
  | zero => exact absurd split.symm (List.append_ne_nil_of_right_ne_nil _ (List.cons_ne_nil _ _))
  | succ k ih =>
    -- The candidate is in the last rank, or in what stands in front of it.
    rw [rankOrder_succ, List.append_eq_append_iff] at split
    have last (present : c ∈ ofRank cs (k + 1)) : d ∈ (rankOrder cs k).map (·.var) := by
      obtain ⟨listed, ranked⟩ := mem_ofRank.mp present
      have within := (hasRank_succ_iff.mp ranked).1
      exact name_mem_rankOrder.mpr
        ((rankedWithin_succ (named_of_mem distinct listed)).mp within d member)
    rcases split with ⟨between, rfl, rest⟩ | ⟨between, earlier, rest⟩
    · rw [List.map_append]
      exact List.mem_append_left _ (last (rest ▸ List.mem_append_right _ List.mem_cons_self))
    · cases between with
      | nil =>
        rw [List.append_nil] at earlier
        rw [List.nil_append] at rest
        exact earlier ▸ last (rest ▸ List.mem_cons_self)
      | cons first between =>
        obtain ⟨rfl, _⟩ := List.cons.inj rest
        exact ih earlier

theorem placements_concat :
    placements (order ++ [c]) =
      placements order ++ [(c.var, ⟨c.type, c.parameters, finish (placements order) c⟩)] := by
  rw [placements, List.foldl_append]
  rfl

/-- A placed validator is finished by what stands in front of it. -/
theorem placements_split (split : placements order = before ++ p :: after) :
    ∃ front c back, order = front ++ c :: back ∧ before = placements front ∧
      p = (c.var, ⟨c.type, c.parameters, finish before c⟩) := by
  induction order using List.reverseRecOn generalizing after with
  | nil => exact absurd split.symm (List.append_ne_nil_of_right_ne_nil _ (List.cons_ne_nil _ _))
  | append_singleton order last ih =>
    rw [placements_concat] at split
    rcases List.eq_nil_or_concat after with rfl | ⟨shorter, final, rfl⟩
    · obtain ⟨rfl, entry⟩ := List.append_inj' split rfl
      exact ⟨order, last, [], rfl, rfl, (List.cons.inj entry).1.symm⟩
    · rw [List.concat_eq_append, ← List.cons_append, ← List.append_assoc] at split
      obtain ⟨earlier, _⟩ := List.append_inj' split rfl
      obtain ⟨front, c, back, rfl, same, entry⟩ := ih earlier
      exact ⟨front, c, back ++ [last], by rw [List.append_assoc]; rfl, same, entry⟩

/-- All that is known of a validator at its place. -/
theorem placed_split (distinct : Distinct cs)
    (split : (resolve cs limit).placed = before ++ p :: after) :
    ∃ c ∈ cs, p = (c.var, ⟨c.type, c.parameters, finish before c⟩) ∧
      ∀ d ∈ c.foreign, d ∈ before.map (·.1) := by
  rw [resolve_placed distinct] at split
  obtain ⟨front, c, back, order, rfl, entry⟩ := placements_split split
  have listed : c ∈ rankOrder cs limit := order ▸ List.mem_append_right _ List.mem_cons_self
  refine ⟨c, (mem_rankOrder.mp listed).1, entry, fun d member => ?_⟩
  rw [placements_names]
  exact rankOrder_foreign distinct order member

theorem finish_eq : finish placed c = settle (hidesShape placed c) c := rfl

theorem finish_name (sound : c.Sound) : (finish placed c).name = c.var := by
  unfold finish
  split
  · exact sound.named
  · exact sound.named

/-- The initializer of a finished statement; a self-reference puts it under `z.lazy`. -/
theorem settle_init (eager : c.statement.isDeferred = false) :
    (settle deferred c).init =
      if c.isSelfReferencing then .zod "lazy" [.arrow (c.statement.init.eraseLookups deferred)]
      else c.statement.init.eraseLookups deferred := by
  have erased : (c.statement.init.eraseLookups deferred).isZod "lazy" = false :=
    (Expr.isZod_eraseLookups (by decide) _).trans eager
  unfold settle
  split
  · simp only [Statement.defer, Statement.isDeferred, erased, Bool.false_eq_true, if_false]
  · rfl

theorem finish_mentions (sound : c.Sound) (member : d ∈ (finish placed c).init.mentions) :
    d ∈ c.dependencies := by
  refine sound.listed d ?_
  rw [finish_eq, settle_init sound.eager] at member
  split at member
  · simp only [Expr.mentions, Expr.mentionsAll, List.append_nil] at member
    exact Expr.mentions_eraseLookups _ _ member
  · exact Expr.mentions_eraseLookups _ _ member

theorem placed_names (distinct : Distinct cs) (sound : ∀ c ∈ cs, c.Sound)
    (member : p ∈ (resolve cs limit).placed) : p.2.statement.name = p.1 := by
  obtain ⟨before, after, split⟩ := List.append_of_mem member
  obtain ⟨c, listed, rfl, _⟩ := placed_split distinct split
  exact finish_name (sound c listed)

theorem resolve_defined_before_use (distinct : Distinct cs) (sound : ∀ c ∈ cs, c.Sound)
    (limit : Nat) :
    DefinedBeforeUse ((resolve cs limit).placed.map fun p => p.2.statement) := by
  intro front s back split
  obtain ⟨before, rest, whole, rfl, others⟩ := List.map_eq_append_iff.mp split
  obtain ⟨p, after, rfl, rfl, rfl⟩ := List.map_eq_cons_iff.mp others
  obtain ⟨c, listed, rfl, foreign⟩ := placed_split distinct whole
  have ok := sound c listed
  have names : (before.map fun p => p.2.statement).map (·.name) = before.map (·.1) := by
    rw [List.map_map]
    exact List.map_congr_left fun p member =>
      placed_names distinct sound (whole ▸ List.mem_append_left _ member)
  rw [names, finish_name ok]
  constructor
  · intro name mentioned
    by_cases own : name = c.var
    · exact .inr own
    · have dependency := finish_mentions ok mentioned
      exact .inl (foreign name (List.mem_filter.mpr ⟨dependency, decide_eq_true own⟩))
  · intro mentioned
    have self : c.isSelfReferencing = true := decide_eq_true (finish_mentions ok mentioned)
    exact ⟨_, (settle_init ok.eager).trans (if_pos self)⟩

end Resolution

end Schemata
