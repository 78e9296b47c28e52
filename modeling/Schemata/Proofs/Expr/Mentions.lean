import Schemata.Proofs.Expr.Structure

/-! The names that an expression mentions: how the list without repetitions arises from all of
them, what stays of them under erasure, and which of them evaluation reads at once. -/
namespace Schemata.Expr

mutual

/-- The references that are read when the expression is evaluated, which leaves the bodies of
functions alone. -/
def reads : Expr → List String
  | .zod _ args => readsAll args
  | .call target _ args => target.reads ++ readsAll args
  | .member target _ => target.reads
  | .ident name => [name]
  | .object fields => readsFields fields
  | .array items => readsAll items
  | .arrow _ | .str _ | .number _ | .bool _ | .raw _ => []

def readsAll : List Expr → List String
  | [] => []
  | e :: es => e.reads ++ readsAll es

def readsFields : List (String × Expr) → List String
  | [] => []
  | (_, e) :: es => e.reads ++ readsFields es

end

variable {deferred : String → Bool} {name : String} {seen names : List String} {e : Expr}

theorem foldl_collect (es : List Expr) (each : ∀ e ∈ es, ∀ seen,
    collect seen e = e.mentions.foldl note seen) (seen : List String) :
    es.foldl collect seen = (es.flatMap mentions).foldl note seen := by
  induction es generalizing seen with
  | nil => rfl
  | cons e rest ih =>
    rw [List.foldl_cons, List.flatMap_cons, List.foldl_append, each e List.mem_cons_self,
      ih fun other member => each other (List.mem_cons_of_mem _ member)]

/-- Collecting notes every mention from left to right. -/
theorem collect_eq (seen : List String) (e : Expr) :
    collect seen e = e.mentions.foldl note seen := by
  induction e generalizing seen with
  | zod method args ih =>
    rw [collect, mentions, collectAll_eq, mentionsAll_eq]
    exact foldl_collect args ih seen
  | call target method args ofTarget ofArgs =>
    rw [collect, mentions, collectAll_eq, mentionsAll_eq, List.foldl_append, ofTarget]
    exact foldl_collect args ofArgs _
  | member target property ih => exact ih seen
  | ident name => rfl
  | object fields ih =>
    have each : ∀ e ∈ fields.map (·.2), ∀ seen, collect seen e = e.mentions.foldl note seen := by
      intro e member
      obtain ⟨field, present, rfl⟩ := List.mem_map.mp member
      exact fun seen => ih field present seen
    rw [collect, mentions, collectFields_eq, mentionsFields_eq, foldl_collect _ each,
      List.flatMap_map]
  | array items ih =>
    rw [collect, mentions, collectAll_eq, mentionsAll_eq]
    exact foldl_collect items ih seen
  | str | number | bool | raw => rfl
  | arrow body ih => exact ih seen

theorem mem_note {other : String} : name ∈ note seen other ↔ name ∈ seen ∨ name = other := by
  unfold note
  split
  · refine ⟨.inl, fun either => either.elim id ?_⟩
    rintro rfl
    assumption
  · rw [List.mem_append, List.mem_singleton]

theorem mem_foldl_note : name ∈ names.foldl note seen ↔ name ∈ seen ∨ name ∈ names := by
  induction names generalizing seen with
  | nil => simp only [List.foldl_nil, List.not_mem_nil, or_false]
  | cons other rest ih => rw [List.foldl_cons, ih, mem_note, List.mem_cons, or_assoc]

theorem mem_identifiers : name ∈ e.identifiers ↔ name ∈ e.mentions := by
  rw [identifiers, collect_eq, mem_foldl_note]
  simp only [List.not_mem_nil, false_or]

theorem identifiers_congr {e' : Expr} (same : e.mentions = e'.mentions) :
    e.identifiers = e'.identifiers := by
  rw [identifiers, identifiers, collect_eq, collect_eq, same]

theorem flatMap_subset {α : Type} {f g : α → List String} {as : List α}
    (each : ∀ a ∈ as, f a ⊆ g a) : as.flatMap f ⊆ as.flatMap g := by
  intro name member
  obtain ⟨a, present, inside⟩ := List.mem_flatMap.mp member
  exact List.mem_flatMap.mpr ⟨a, present, each a present inside⟩

theorem append_subset_append {as bs cs ds : List String} (left : as ⊆ cs) (right : bs ⊆ ds) :
    as ++ bs ⊆ cs ++ ds :=
  List.append_subset.mpr ⟨List.subset_append_of_subset_left _ left,
    List.subset_append_of_subset_right _ right⟩

/-- Erasure mentions nothing new. -/
theorem mentions_eraseLookups (deferred : String → Bool) (e : Expr) :
    (e.eraseLookups deferred).mentions ⊆ e.mentions := by
  induction e with
  | zod method args ih =>
    simp only [eraseLookups, mentions, eraseAll_eq, mentionsAll_eq, List.flatMap_map]
    exact flatMap_subset ih
  | call target method args ofTarget ofArgs =>
    simp only [eraseLookups, mentions, eraseAll_eq, mentionsAll_eq, List.flatMap_map]
    exact append_subset_append ofTarget (flatMap_subset ofArgs)
  | member target property ih =>
    rw [eraseLookups]
    split
    · exact List.nil_subset _
    · exact ih
  | object fields ih =>
    simp only [eraseLookups, mentions, eraseFields_eq, mentionsFields_eq, List.flatMap_map]
    exact flatMap_subset ih
  | array items ih =>
    simp only [eraseLookups, mentions, eraseAll_eq, mentionsAll_eq, List.flatMap_map]
    exact flatMap_subset ih
  | arrow body ih => exact ih
  | ident | str | number | bool | raw => exact List.Subset.refl _

theorem readsAll_eq (es : List Expr) : readsAll es = es.flatMap reads := by
  induction es with
  | nil => rfl
  | cons e rest ih => rw [readsAll, List.flatMap_cons, ih]

theorem readsFields_eq (fields : List (String × Expr)) :
    readsFields fields = fields.flatMap fun field => field.2.reads := by
  induction fields with
  | nil => rfl
  | cons field rest ih => rw [readsFields, List.flatMap_cons, ih]

theorem reads_subset (e : Expr) : e.reads ⊆ e.mentions := by
  induction e with
  | zod method args ih =>
    rw [reads, mentions, readsAll_eq, mentionsAll_eq]
    exact flatMap_subset ih
  | call target method args ofTarget ofArgs =>
    rw [reads, mentions, readsAll_eq, mentionsAll_eq]
    exact append_subset_append ofTarget (flatMap_subset ofArgs)
  | member target property ih => exact ih
  | object fields ih =>
    rw [reads, mentions, readsFields_eq, mentionsFields_eq]
    exact flatMap_subset ih
  | array items ih =>
    rw [reads, mentions, readsAll_eq, mentionsAll_eq]
    exact flatMap_subset ih
  | arrow => exact List.nil_subset _
  | ident | str | number | bool | raw => exact List.Subset.refl _

/-- Erasure makes no schema constructor but the one that accepts everything. -/
theorem isZod_eraseLookups {method : String} (differs : method ≠ "any") (e : Expr) :
    (e.eraseLookups deferred).isZod method = e.isZod method := by
  cases e with
  | member target property =>
    rw [eraseLookups]
    split
    · exact beq_eq_false_iff_ne.mpr differs.symm
    · rfl
  | _ => rfl

end Schemata.Expr
