import Schemata.Proofs.Compilation.ObjectOperands
import Schemata.Proofs.Expr.Layers

/-! The outermost calls of compiled validators. Types are compiled without the calls of tags, and only
unions with `null` or `undefined` are wrapped as a whole. -/
namespace Schemata.Compilation

open TypeScript
open Schemata.Expr (isTagged isWrapped tagMethods wrapperMethods)

/-- The method that a union is wrapped with last. One of `null` and `undefined` alone is not. -/
def wrapper? : TypeExpr → Option String
  | .union members =>
    if members.all isNullish then none
    else if members.any isUndefined then some "optional"
    else if members.any isNull then some "nullable"
    else none
  | _ => none

variable {ctx : Context} {t : TypeExpr} {e : Expr} {es : List Expr}

/-! ## What types are compiled to as a whole -/

/-- The methods that validators of types are called with, but for those that wrap unions. -/
def typeMethods : List String :=
  ["partial", "required", "pick", "omit", "and", "rest", "catchall", "returns"]

theorem outermost?_reference (ctx : Context) (name : String) :
    Expr.outermost? (reference ctx name) = none := by
  unfold reference
  split
  · rfl
  · split <;> rfl

theorem outermost?_application {name : String} (kept : name ∉ transparentNames)
    (args : List TypeExpr) : Expr.outermost? (application ctx name args es) = none ∨
      ∃ method ∈ typeMethods, Expr.outermost? (application ctx name args es) = some method := by
  unfold application
  split
  case h_7 | h_8 | h_11 | h_12 => exact .inr ⟨_, by decide, rfl⟩
  case h_9 | h_10 => exact absurd (by decide) kept
  case h_13 => exact .inl (outermost?_reference ctx name)
  all_goals exact .inl rfl

theorem outermost?_unionOf (several : es.length ≠ 1) : Expr.outermost? (unionOf es) = none := by
  match es with
  | [] => rfl
  | [e] => exact absurd rfl several
  | e :: other :: rest => rfl

theorem isEmpty_compileConcrete (ts : List TypeExpr) :
    (compileConcrete ctx ts).isEmpty = ts.all isNullish := by
  induction ts with
  | nil => rfl
  | cons t rest ih =>
    rw [compileConcrete, List.all_cons]
    cases isNullish t with
    | true => exact ih
    | false => rfl

theorem outermost?_union {members : List TypeExpr} (several : members.length ≠ 1) :
    Expr.outermost? (compile ctx (.union members)) = wrapper? (.union members) := by
  have all : Expr.outermost? (unionOf (compileAll ctx members)) = none :=
    outermost?_unionOf (by rwa [compileAll_eq, List.length_map])
  rw [compile, unionWith, isEmpty_compileConcrete, wrapper?]
  split
  · exact all
  · cases hasUndefined : members.any isUndefined with
    | true => rfl
    | false =>
      cases hasNull : members.any isNull with
      | true => rfl
      | false =>
        rw [compileConcrete_eq_compileAll hasNull hasUndefined]
        exact all

theorem outermost?_foldl_and (several : es ≠ []) :
    Expr.outermost? (es.foldl (fun acc next => .call acc "and" [next]) e) = some "and" := by
  induction es generalizing e with
  | nil => exact absurd rfl several
  | cons next rest ih =>
    cases rest with
    | nil => rfl
    | cons => exact ih (List.cons_ne_nil _ _)

/-- The outermost call of a type's validator wraps a union, or it is a method of another kind. -/
theorem outermost?_compile (ctx : Context) (t : TypeExpr) :
    Expr.outermost? (compile ctx t) = wrapper? (root t) ∨ wrapper? (root t) = none ∧
      ∃ method ∈ typeMethods, Expr.outermost? (compile ctx t) = some method := by
  have applied {name : String} (kept : name ∉ transparentNames) (args : List TypeExpr) :
      Expr.outermost? (compile ctx (.apply name args)) = none ∨ wrapper? (.apply name args) = none ∧
        ∃ method ∈ typeMethods, Expr.outermost? (compile ctx (.apply name args)) = some method :=
    (outermost?_application kept args).imp_right fun called => ⟨rfl, called⟩
  fun_induction root t with
  | case1 t ih | case2 t ih => exact ih
  | case3 name t args transparent ih =>
    rcases List.mem_pair.mp transparent with rfl | rfl
    · exact ih
    · exact ih
  | case4 name t args kept => exact applied kept (t :: args)
  | case5 t ih =>
    rw [compile_union_singleton]
    exact ih
  | case6 t ih => exact ih
  | case7 t paren readonly generic union inter =>
    cases t with
    | keyword k => cases k <;> exact .inl rfl
    | ref name => exact .inl (outermost?_reference ctx name)
    | apply name args =>
      cases args with
      | nil =>
        by_cases transparent : name ∈ transparentNames
        · rcases List.mem_pair.mp transparent with rfl | rfl <;> exact .inl rfl
        · exact applied transparent []
      | cons t args => exact absurd rfl (generic name t args)
    | paren t => exact absurd rfl (paren t)
    | readonly t => exact absurd rfl (readonly t)
    | tuple elements =>
      rw [compile]
      cases compileRest ctx elements with
      | none => exact .inl rfl
      | some rest => exact .inr ⟨rfl, _, by decide, rfl⟩
    | union members =>
      refine .inl (outermost?_union fun one => ?_)
      obtain ⟨t, rfl⟩ := List.length_eq_one_iff.mp one
      exact union t rfl
    | inter members =>
      rcases members with _ | ⟨t, _ | ⟨u, rest⟩⟩
      · exact .inl rfl
      · exact absurd rfl (inter t)
      · exact .inr ⟨rfl, _, by decide, outermost?_foldl_and (List.cons_ne_nil _ _)⟩
    | object members =>
      rw [compile]
      unfold objectOf
      split
      · exact .inl rfl
      · split
        · exact .inl rfl
        · exact .inr ⟨rfl, _, by decide, rfl⟩
    | function signature =>
      cases signature
      exact .inr ⟨rfl, _, by decide, rfl⟩
    | lookup object index =>
      rw [compile]
      split
      · exact .inl rfl
      · exact .inl rfl
    | _ => exact .inl rfl

theorem wrapper?_mem {method : String} (found : wrapper? t = some method) :
    method ∈ wrapperMethods := by
  unfold wrapper? at found
  split at found
  · split at found
    · contradiction
    · split at found
      · obtain rfl := Option.some.inj found
        decide
      · split at found
        · obtain rfl := Option.some.inj found
          decide
        · contradiction
  · contradiction

theorem isWrapped_compile (ctx : Context) (t : TypeExpr) :
    isWrapped (compile ctx t) = (wrapper? (root t)).isSome := by
  have other : ∀ method ∈ typeMethods, wrapperMethods.contains method = false := by decide
  rw [isWrapped]
  rcases outermost?_compile ctx t with same | ⟨none, method, member, called⟩
  · rw [same]
    cases found : wrapper? (root t) with
    | none => rfl
    | some method => exact List.elem_eq_true_of_mem (wrapper?_mem found)
  · rw [called, none]
    exact other method member

theorem isWrapped_compile_eq_false {ctx : Context} {t : TypeExpr} :
    isWrapped (compile ctx t) = false ↔ wrapper? (root t) = none := by
  rw [isWrapped_compile, Option.isSome_eq_false_iff, Option.isNone_iff_eq_none]

theorem isTagged_compile (ctx : Context) (t : TypeExpr) : isTagged (compile ctx t) = false := by
  have wrapping : ∀ method ∈ wrapperMethods, tagMethods.contains method = false := by decide
  have other : ∀ method ∈ typeMethods, tagMethods.contains method = false := by decide
  rw [isTagged]
  rcases outermost?_compile ctx t with same | ⟨_, method, member, called⟩
  · rw [same]
    cases found : wrapper? (root t) with
    | none => rfl
    | some method => exact wrapping method (wrapper?_mem found)
  · rw [called]
    exact other method member

/-! ## Declarations -/

theorem isTagged_compileBody (ctx : Context) (name : String) (body : Body) :
    isTagged (compileBody ctx name body) = false := by
  match body with
  | .alias type => exact isTagged_compile ctx type
  | .enum => rfl
  | .interface bases members =>
    rw [compileBody]
    cases compileIndex ctx members with
    | some value => rfl
    | none => cases bases <;> rfl

theorem isWrapped_compileBody_eq_false {name : String} {body : Body} :
    isWrapped (compileBody ctx name body) = false ↔
      ∀ t, body = .alias t → wrapper? (root t) = none := by
  match body with
  | .alias type =>
    rw [compileBody, isWrapped_compile_eq_false]
    simp
  | .enum => simp [compileBody, isWrapped, Expr.outermost?]
  | .interface bases members =>
    have other : ∀ t, Body.interface bases members = .alias t → wrapper? (root t) = none :=
      fun _ same => by cases same
    rw [iff_true_right other, compileBody]
    cases compileIndex ctx members with
    | some value => rfl
    | none => cases bases <;> rfl

end Schemata.Compilation
