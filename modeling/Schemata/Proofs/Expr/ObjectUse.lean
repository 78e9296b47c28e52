import Schemata.Proofs.Expr.Parts

/-! Validators that an expression takes for object schemas. Erasure looks for fields only, so it
keeps all of these uses. -/
namespace Schemata.Expr

/-- The methods that object schemas have and deferred ones lack. -/
def objectMethods : List String := ["extend", "pick", "omit", "partial", "required"]

def methodTarget? : Expr → Option String
  | .call (.ident name) method _ => if method ∈ objectMethods then some name else none
  | _ => none

def arguments : Expr → List Expr
  | .zod _ args => args
  | .call _ _ args => args
  | _ => []

/-- The validators that an expression takes for object schemas: it calls such a method on one, or
passes the bare fields of one to a call. -/
def objectUse (e : Expr) : List String :=
  (methodTarget? e).toList ++ (arguments e).filterMap lookupTarget?

/-- Every use of a validator as an object schema, at any depth. -/
def objectUses (e : Expr) : List String := e.parts.flatMap objectUse

variable {deferred : String → Bool} {e : Expr}

theorem methodTarget?_eraseLookups (e : Expr) :
    methodTarget? (e.eraseLookups deferred) = methodTarget? e := by
  cases e with
  | call target method args =>
    cases target with
    | member target property =>
      rw [eraseLookups, eraseLookups]
      split
      · rfl
      · rfl
    | _ => rfl
  | member target property =>
    rw [eraseLookups]
    split
    · rfl
    · rfl
  | _ => rfl

theorem arguments_eraseLookups (e : Expr) :
    arguments (e.eraseLookups deferred) = (arguments e).map (eraseLookups deferred) := by
  cases e with
  | zod | call => rw [eraseLookups, arguments, arguments, eraseAll_eq]
  | member target property =>
    rw [eraseLookups]
    split
    · rfl
    · rfl
  | _ => rfl

/-- Erasure leaves every use as an object schema as it is, those of deferred validators included. -/
theorem objectUses_eraseLookups (deferred : String → Bool) (e : Expr) :
    (e.eraseLookups deferred).objectUses = e.objectUses := by
  refine flatMap_parts_kept ?_ ?_ rfl e
  · intro e _
    have target : lookupTarget? ∘ eraseLookups deferred = lookupTarget? :=
      funext lookupTarget?_eraseLookups
    rw [objectUse, objectUse, methodTarget?_eraseLookups, arguments_eraseLookups,
      List.filterMap_map, target]
  · intro e goes
    obtain ⟨name, key, _, rfl⟩ := isErased_iff.mp goes
    rfl

theorem objectUses_lazy (body : Expr) :
    (Expr.zod "lazy" [.arrow body]).objectUses = body.objectUses := by
  simp only [objectUses, parts, partsAll, List.append_nil, List.flatMap_cons]
  rfl

theorem methodTarget?_mentioned {name : String} (found : methodTarget? e = some name) :
    name ∈ e.mentions := by
  unfold methodTarget? at found
  split at found
  · split at found
    · exact Option.some.inj found ▸ List.mem_cons_self
    · contradiction
  · contradiction

theorem arguments_subset (e : Expr) : arguments e ⊆ e.children := by
  cases e with
  | zod => exact List.Subset.refl _
  | call => exact List.subset_cons_self _ _
  | _ => exact List.nil_subset _

theorem objectUses_subset (e : Expr) : e.objectUses ⊆ e.mentions := by
  intro name used
  obtain ⟨part, inside, use⟩ := List.mem_flatMap.mp used
  apply mentions_part inside
  rcases List.mem_append.mp use with target | argument
  · exact methodTarget?_mentioned (Option.mem_toList.mp target)
  · obtain ⟨arg, passed, found⟩ := List.mem_filterMap.mp argument
    obtain rfl := lookupTarget?_eq_some.mp found
    exact mentions_child (arguments_subset part passed) (List.mem_singleton_self name)

end Schemata.Expr
