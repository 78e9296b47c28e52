import Mathlib.Data.List.Basic
import Schemata.Proofs.Expr.Mentions

/-! The subexpressions of an expression, and what erasure does to those of some form. Each erased
lookup is a whole subexpression, so it is enough to know what becomes of a single node. -/
namespace Schemata.Expr

mutual

/-- An expression and all below it, from left to right. -/
def parts : Expr → List Expr
  | .zod method args => .zod method args :: partsAll args
  | .call target method args => .call target method args :: (target.parts ++ partsAll args)
  | .member target property => .member target property :: target.parts
  | .object fields => .object fields :: partsFields fields
  | .array items => .array items :: partsAll items
  | .arrow body => .arrow body :: body.parts
  | .ident name => [.ident name]
  | .str value => [.str value]
  | .number text => [.number text]
  | .bool value => [.bool value]
  | .raw text => [.raw text]

def partsAll : List Expr → List Expr
  | [] => []
  | e :: es => e.parts ++ partsAll es

def partsFields : List (String × Expr) → List Expr
  | [] => []
  | (_, e) :: es => e.parts ++ partsFields es

end

def children : Expr → List Expr
  | .zod _ args => args
  | .call target _ args => target :: args
  | .member target _ => [target]
  | .object fields => fields.map (·.2)
  | .array items => items
  | .arrow body => [body]
  | .ident _ | .str _ | .number _ | .bool _ | .raw _ => []

/-- The validator and the field of an expression `x.shape.key`. -/
def fieldLookup : Expr → List (String × String)
  | .member target key => (lookupTarget? target).toList.map fun name => (name, key)
  | _ => []

/-- Every lookup of a validator's field, at any depth. -/
def lookups (e : Expr) : List (String × String) := e.parts.flatMap fieldLookup

/-- Whether an expression as a whole is a lookup that erasure replaces. -/
def isErased (deferred : String → Bool) : Expr → Bool
  | .member target _ => isDeferredLookup deferred target
  | _ => false

variable {deferred other : String → Bool} {e : Expr}

theorem partsAll_eq (es : List Expr) : partsAll es = es.flatMap parts := by
  induction es with
  | nil => rfl
  | cons e rest ih => rw [partsAll, List.flatMap_cons, ih]

theorem partsFields_eq (fields : List (String × Expr)) :
    partsFields fields = (fields.map (·.2)).flatMap parts := by
  induction fields with
  | nil => rfl
  | cons field rest ih => rw [partsFields, List.map_cons, List.flatMap_cons, ih]

theorem parts_eq (e : Expr) : e.parts = e :: e.children.flatMap parts := by
  cases e with
  | zod | call | array => simp only [parts, children, partsAll_eq, List.flatMap_cons]
  | object => rw [parts, children, partsFields_eq]
  | member | arrow => rw [parts, children, List.flatMap_singleton]
  | ident | str | number | bool | raw => rfl

theorem children_induction {motive : Expr → Prop}
    (node : ∀ e, (∀ child ∈ e.children, motive child) → motive e) (e : Expr) : motive e := by
  induction e with
  | zod method args ih => exact node _ ih
  | call target method args ofTarget ofArgs =>
    refine node _ fun child member => ?_
    rcases List.mem_cons.mp member with rfl | later
    · exact ofTarget
    · exact ofArgs child later
  | member target property ih | arrow target ih =>
    refine node _ fun child member => ?_
    exact List.mem_singleton.mp member ▸ ih
  | object fields ih =>
    refine node _ fun child member => ?_
    obtain ⟨field, present, rfl⟩ := List.mem_map.mp member
    exact ih field present
  | array items ih => exact node _ ih
  | ident | str | number | bool | raw => exact node _ fun _ member => nomatch member

theorem mentions_child {child : Expr} (below : child ∈ e.children) :
    child.mentions ⊆ e.mentions := by
  have among {es : List Expr} (member : child ∈ es) : child.mentions ⊆ mentionsAll es := by
    rw [mentionsAll_eq]
    exact fun name mentioned => List.mem_flatMap_of_mem member mentioned
  cases e with
  | zod | array => exact among below
  | call target method args =>
    rcases List.mem_cons.mp below with rfl | later
    · exact List.subset_append_left _ _
    · exact List.subset_append_of_subset_right _ (among later)
  | member | arrow => exact List.mem_singleton.mp below ▸ List.Subset.refl _
  | object fields =>
    obtain ⟨field, member, rfl⟩ := List.mem_map.mp below
    rw [mentions, mentionsFields_eq]
    exact fun name mentioned => List.mem_flatMap_of_mem member mentioned
  | ident | str | number | bool | raw => contradiction

theorem mentions_part {part : Expr} (inside : part ∈ e.parts) : part.mentions ⊆ e.mentions := by
  induction e using children_induction with
  | node e ih =>
    rw [parts_eq] at inside
    rcases List.mem_cons.mp inside with rfl | further
    · exact List.Subset.refl _
    · obtain ⟨child, below, deeper⟩ := List.mem_flatMap.mp further
      exact List.Subset.trans (ih child below deeper) (mentions_child below)

theorem eraseLookups_of_isErased (erased : isErased deferred e = true) :
    e.eraseLookups deferred = anything := by
  cases e with
  | member target property =>
    rw [eraseLookups]
    exact if_pos erased
  | _ => contradiction

theorem eraseLookups_member {target : Expr} {property : String}
    (stays : isErased deferred (.member target property) = false) :
    (Expr.member target property).eraseLookups deferred =
      .member (target.eraseLookups deferred) property := by
  rw [eraseLookups]
  exact if_neg (Bool.not_eq_true _ ▸ stays)

theorem children_eraseLookups (stays : isErased deferred e = false) :
    (e.eraseLookups deferred).children = e.children.map (eraseLookups deferred) := by
  cases e with
  | zod | array => rw [eraseLookups, children, children, eraseAll_eq]
  | call => rw [eraseLookups, children, children, eraseAll_eq, List.map_cons]
  | member => rw [eraseLookups_member stays, children, children, List.map_singleton]
  | object fields =>
    rw [eraseLookups, children, children, eraseFields_eq, List.map_map, List.map_map]
    rfl
  | ident | str | number | bool | raw | arrow => rfl

/-- What is collected from the subexpressions is filtered by erasure if it is so at each node that
stays, and if the filter drops all that is collected from the others. -/
theorem flatMap_parts_eraseLookups {α : Type} {collect : Expr → List α} {keep : α → Bool}
    (stays : ∀ e, isErased deferred e = false →
      collect (e.eraseLookups deferred) = (collect e).filter keep)
    (goes : ∀ e, isErased deferred e = true → (e.parts.flatMap collect).filter keep = [])
    (empty : anything.parts.flatMap collect = []) (e : Expr) :
    (e.eraseLookups deferred).parts.flatMap collect = (e.parts.flatMap collect).filter keep := by
  induction e using children_induction with
  | node e ih =>
    -- An erased node takes its subexpressions with it; the children of any other one stay in place.
    cases erased : isErased deferred e with
    | true => rw [eraseLookups_of_isErased erased, empty, goes e erased]
    | false =>
      have below : (e.children.map (eraseLookups deferred)).flatMap
          (fun child => child.parts.flatMap collect) =
            (e.children.flatMap fun child => child.parts.flatMap collect).filter keep := by
        rw [List.flatMap_map, List.filter_flatMap]
        exact List.flatMap_congr ih
      rw [parts_eq, parts_eq e, List.flatMap_cons, List.flatMap_cons, children_eraseLookups erased,
        List.flatMap_assoc, List.flatMap_assoc, List.filter_append, stays e erased, below]

/-- What the erased nodes contribute nothing to, and the others as before, is collected as before. -/
theorem flatMap_parts_kept {α : Type} {collect : Expr → List α}
    (stays : ∀ e, isErased deferred e = false → collect (e.eraseLookups deferred) = collect e)
    (goes : ∀ e, isErased deferred e = true → e.parts.flatMap collect = [])
    (empty : anything.parts.flatMap collect = []) (e : Expr) :
    (e.eraseLookups deferred).parts.flatMap collect = e.parts.flatMap collect := by
  have all (found : List α) : found.filter (fun _ => true) = found :=
    List.filter_eq_self.mpr fun _ _ => rfl
  have kept : (e.eraseLookups deferred).parts.flatMap collect =
      (e.parts.flatMap collect).filter fun _ => true :=
    flatMap_parts_eraseLookups (fun e same => (stays e same).trans (all _).symm)
      (fun e gone => (all _).trans (goes e gone)) empty e
  exact kept.trans (all _)

theorem lookupTarget?_eq_some {name : String} :
    lookupTarget? e = some name ↔ e = .member (.ident name) shapeName := by
  constructor
  · intro found
    unfold lookupTarget? at found
    split at found
    · rename_i other property
      split at found
      · rename_i shape
        rw [Option.some.inj found, shape]
      · contradiction
    · contradiction
  · rintro rfl
    rw [lookupTarget?, if_pos rfl]

theorem isErased_iff : isErased deferred e = true ↔
    ∃ name key, deferred name = true ∧ e = .member (.member (.ident name) shapeName) key := by
  constructor
  · intro erased
    cases e with
    | member target key =>
      obtain ⟨name, found, hidden⟩ := (Option.any_eq_true _ _).mp erased
      exact ⟨name, key, hidden, congrArg (member · key) (lookupTarget?_eq_some.mp found)⟩
    | _ => contradiction
  · rintro ⟨name, key, hidden, rfl⟩
    exact (Option.any_eq_true _ _).mpr ⟨name, lookupTarget?_eq_some.mpr rfl, hidden⟩

theorem lookupTarget?_eraseLookups (e : Expr) :
    lookupTarget? (e.eraseLookups deferred) = lookupTarget? e := by
  cases e with
  | member target property =>
    rw [eraseLookups]
    cases target with
    | ident => rfl
    | member =>
      rw [eraseLookups]
      split
      · rfl
      · split
        · rfl
        · rfl
    | _ => rfl
  | _ => rfl

theorem isDeferredLookup_congr (same : ∀ name ∈ e.mentions, deferred name = other name) :
    isDeferredLookup deferred e = isDeferredLookup other e := by
  unfold isDeferredLookup
  cases found : lookupTarget? e with
  | none => rfl
  | some name =>
    obtain rfl := lookupTarget?_eq_some.mp found
    exact same name (List.mem_singleton_self name)

theorem eraseLookups_congr (same : ∀ name ∈ e.mentions, deferred name = other name) :
    e.eraseLookups deferred = e.eraseLookups other := by
  have all (es : List Expr) (same : ∀ name ∈ mentionsAll es, deferred name = other name)
      (each : ∀ e ∈ es, (∀ name ∈ e.mentions, deferred name = other name) →
        e.eraseLookups deferred = e.eraseLookups other) :
      eraseAll deferred es = eraseAll other es := by
    rw [eraseAll_eq, eraseAll_eq]
    rw [mentionsAll_eq] at same
    exact List.map_congr_left fun e member =>
      each e member fun name mentioned => same name (List.mem_flatMap_of_mem member mentioned)
  induction e with
  | zod method args ih => rw [eraseLookups, eraseLookups, all args same ih]
  | call target method args ofTarget ofArgs =>
    have first := ofTarget fun name mentioned => same name (List.mem_append_left _ mentioned)
    have rest := all args
      (fun name mentioned => same name (List.mem_append_right _ mentioned)) ofArgs
    rw [eraseLookups, eraseLookups, first, rest]
  | member target property ih =>
    rw [mentions] at same
    rw [eraseLookups, eraseLookups, isDeferredLookup_congr same, ih same]
  | object fields ih =>
    rw [mentions, mentionsFields_eq] at same
    rw [eraseLookups, eraseLookups, eraseFields_eq, eraseFields_eq]
    refine congrArg object (List.map_congr_left fun field member => ?_)
    rw [ih field member fun name mentioned =>
      same name (List.mem_flatMap_of_mem member mentioned)]
  | array items ih => rw [eraseLookups, eraseLookups, all items same ih]
  | arrow body ih => rw [eraseLookups, eraseLookups, ih same]
  | ident | str | number | bool | raw => rfl

/-- Exactly the lookups into deferred validators go. -/
theorem lookups_eraseLookups (deferred : String → Bool) (e : Expr) :
    (e.eraseLookups deferred).lookups = e.lookups.filter fun field => !deferred field.1 := by
  refine flatMap_parts_eraseLookups ?_ ?_ rfl e
  · intro e stays
    cases e with
    | member target key =>
      rw [eraseLookups_member stays, fieldLookup, lookupTarget?_eraseLookups, fieldLookup]
      cases found : lookupTarget? target with
      | none => rfl
      | some name =>
        have visible : deferred name = false := by
          simpa only [isErased, isDeferredLookup, found, Option.any_some] using stays
        simp only [Option.toList_some, List.map_cons, List.map_nil, List.filter_cons, visible,
          Bool.not_false, if_true, List.filter_nil]
    | _ => rfl
  · intro e goes
    obtain ⟨name, key, hidden, rfl⟩ := isErased_iff.mp goes
    have single : (Expr.member (.member (.ident name) shapeName) key).parts.flatMap fieldLookup =
        [(name, key)] := rfl
    rw [single, List.filter_cons, hidden]
    rfl

theorem lookups_lazy (body : Expr) : (Expr.zod "lazy" [.arrow body]).lookups = body.lookups := by
  simp only [lookups, parts, partsAll, List.append_nil, List.flatMap_cons, fieldLookup,
    List.nil_append]

end Schemata.Expr
