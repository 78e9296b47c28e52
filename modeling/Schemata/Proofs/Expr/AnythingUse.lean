import Schemata.Proofs.Expr.Selection

/-! The schema that accepts everything in the place of an object schema. It has neither fields nor
the methods of object schemas. Erasure writes it where a lookup stood, so what is done with the result
of a lookup may be done with it in the end. -/
namespace Schemata.Expr

def isAnything : Expr → Bool
  | .zod method args => method == "any" && args.isEmpty
  | _ => false

/-- Whether an expression accesses the fields of what `stands` in front of it, or calls a method on
it that only object schemas have. -/
def takesForObject (stands : Expr → Bool) : Expr → Bool
  | .call target method _ => objectMethods.contains method && stands target
  | .member target property => property == shapeName && stands target
  | _ => false

/-- Whether erasure leaves the schema that accepts everything of the whole expression. -/
def fades (deferred : String → Bool) (e : Expr) : Bool := isAnything e || isErased deferred e

variable {deferred : String → Bool} {stands : Expr → Bool} {e : Expr}

theorem plain_takesForObject (stands : Expr → Bool) : Plain (takesForObject stands) where
  zod _ _ := rfl
  call usual _ _ := by rw [takesForObject, usual, Bool.false_and]
  object _ := rfl
  array _ := rfl
  str _ := rfl
  number _ := rfl
  bool _ := rfl
  raw _ := rfl

theorem isAnything_eraseLookups (deferred : String → Bool) (e : Expr) :
    isAnything (e.eraseLookups deferred) = fades deferred e := by
  cases e with
  | member target property =>
    cases erased : isErased deferred (.member target property) with
    | true =>
      rw [eraseLookups_of_isErased erased, fades, erased, Bool.or_true]
      rfl
    | false =>
      rw [eraseLookups_member erased, fades, erased]
      rfl
  | zod method args =>
    rw [eraseLookups, eraseAll_eq, fades, isAnything, isAnything, List.isEmpty_map]
    exact (Bool.or_false _).symm
  | _ => rfl

theorem takesForObject_eraseLookups (stays : isErased deferred e = false) :
    takesForObject isAnything (e.eraseLookups deferred) =
      takesForObject (fades deferred) e := by
  cases e with
  | call target method args =>
    rw [eraseLookups, takesForObject, takesForObject, isAnything_eraseLookups]
  | member target property =>
    rw [eraseLookups_member stays, takesForObject, takesForObject, isAnything_eraseLookups]
  | _ => rfl

/-- The lookups that erasure replaces take nothing for an object but validators. -/
theorem selected_of_isErased (erased : isErased deferred e = true) :
    e.selected (takesForObject (fades deferred)) = [] := by
  obtain ⟨name, key, _, rfl⟩ := isErased_iff.mp erased
  simp [selected, parts, takesForObject, fades, isAnything, isErased, isDeferredLookup,
    lookupTarget?]

/-- What takes the schema that accepts everything for an object after erasure is what did so before
with what erasure leaves of its target. -/
theorem selected_eraseLookups_eq_nil_iff (deferred : String → Bool) (e : Expr) :
    (e.eraseLookups deferred).selected (takesForObject isAnything) = [] ↔
      e.selected (takesForObject (fades deferred)) = [] := by
  induction e using children_induction with
  | node e ih =>
    cases erased : isErased deferred e with
    | true =>
      rw [eraseLookups_of_isErased erased, selected_of_isErased erased]
      exact iff_of_true rfl rfl
    | false =>
      rw [selected_eq_nil, selected_eq_nil, takesForObject_eraseLookups erased,
        children_eraseLookups erased, List.forall_mem_map]
      exact and_congr_right fun _ => forall₂_congr ih

theorem selected_lazy (stands : Expr → Bool) (body : Expr) :
    (Expr.zod "lazy" [.arrow body]).selected (takesForObject stands) =
      body.selected (takesForObject stands) := by
  rw [selected_of_false rfl, children, List.flatMap_singleton, selected_of_false rfl, children,
    List.flatMap_singleton]

end Schemata.Expr
