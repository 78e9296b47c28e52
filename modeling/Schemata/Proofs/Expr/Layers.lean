import Schemata.Proofs.DocComment.Additions
import Schemata.Proofs.Expr.Selection

/-! The calls around a validator, from the inside to the outside: refinements, the wrappers that also
accept `null` or `undefined`, and a default value. A wrapper has no refinements of its own, and what
is around a default value does not give it. -/
namespace Schemata.Expr

open DocComment

/-- The methods of a validator that give one that accepts more. -/
def wrapperMethods : List String := ["nullable", "optional"]

/-- The methods that are called for the sake of tags alone. -/
def tagMethods : List String := "default" :: refinementMethods

/-- The method of the outermost call. -/
def outermost? : Expr → Option String
  | .call _ method _ => some method
  | _ => none

def isWrapped (e : Expr) : Bool := (outermost? e).any wrapperMethods.contains

def isDefaulted (e : Expr) : Bool := outermost? e == some "default"

/-- Whether an expression as a whole refines one that is wrapped. -/
def refinesWrapped : Expr → Bool
  | .call target method _ => refinementMethods.contains method && isWrapped target
  | _ => false

/-- Whether a default value stands right below an expression, and is none of its fields. -/
def coversDefault : Expr → Bool
  | .object _ => false
  | e => e.children.any isDefaulted

/-- Refinements come before wrappers: none is chained onto a wrapped validator. -/
def WrapsRefined (e : Expr) : Prop := ∀ part ∈ e.parts, refinesWrapped part = false

/-- A default value is the outermost call of a property, or of the whole. -/
def DefaultsOutermost (e : Expr) : Prop :=
  ∀ part ∈ e.parts, ∀ child ∈ part.children, isDefaulted child = true → ∃ fields, part = .object fields

def isTagged (e : Expr) : Bool := (outermost? e).any tagMethods.contains

def isObject : Expr → Bool
  | .object _ => true
  | _ => false

/-- The expression is no call and has nothing below it. -/
structure Bare (e : Expr) : Prop where
  leaf : e.children = []
  uncalled : outermost? e = none

/-- A property of nodes that is about the order of calls. Objects do not have it, and other nodes have
it where a child is of some kind; but a refinement has it where what it refines does not allow that.
Only default values are of the kind, refinements allow others, and a default value goes onto what has
none. -/
structure Layering (kind p : Expr → Bool) (allows : Expr → Prop) : Prop where
  usual : ∀ {e}, isDefaulted e = false → kind e = false
  node : ∀ {e}, isTagged e = false → isObject e = false → p e = e.children.any kind
  object : ∀ fields, p (.object fields) = false
  refinement : ∀ {target method args}, method ∈ refinementMethods → isDefaulted target = false →
    (∀ e ∈ args, isDefaulted e = false) → (p (.call target method args) = false ↔ allows target)
  refined : ∀ {method}, method ∈ refinementMethods → ∀ target args, allows (.call target method args)
  default : ∀ {target value}, isDefaulted target = false → isDefaulted value = false →
    p (.call target "default" [value]) = false

/-- The expression is not of the kind, and nothing in it has the property. -/
def Sound (kind p : Expr → Bool) (e : Expr) : Prop := kind e = false ∧ e.selected p = []

variable {kind p : Expr → Bool} {allows : Expr → Prop} {e : Expr}

theorem wrapsRefined_iff : WrapsRefined e ↔ e.selected refinesWrapped = [] := by
  simp [WrapsRefined, selected, List.filter_eq_nil_iff]

theorem defaultsOutermost_iff : DefaultsOutermost e ↔ e.selected coversDefault = [] := by
  rw [selected, List.filter_eq_nil_iff]
  refine forall₂_congr fun part _ => ?_
  cases part with
  | object fields => simp [coversDefault]
  | _ => simp [coversDefault, List.any_eq_true]

theorem bare_of_literal (literal : Literal e) : Bare e := by
  cases literal <;> exact ⟨rfl, rfl⟩

theorem Bare.untagged (bare : Bare e) : isTagged e = false := by
  rw [isTagged, bare.uncalled, Option.any_none]

theorem Bare.undefaulted (bare : Bare e) : isDefaulted e = false := by
  rw [isDefaulted, bare.uncalled]
  rfl

theorem layering_refinesWrapped :
    Layering (fun _ => false) refinesWrapped (fun e => isWrapped e = false) where
  usual _ := rfl
  node {e} untagged _ := by
    cases e with
    | call target method args =>
      have other : refinementMethods.contains method = false := by
        simp only [isTagged, outermost?, Option.any_some, tagMethods, List.contains_cons,
          Bool.or_eq_false_iff] at untagged
        exact untagged.2
      rw [refinesWrapped, other]
      simp
    | _ => simp [refinesWrapped]
  object _ := rfl
  refinement {target method args} refines _ _ := by
    have known : refinementMethods.contains method = true := List.elem_eq_true_of_mem refines
    rw [refinesWrapped, known, Bool.true_and]
  refined {method} refines target args := by
    have apart : ∀ method ∈ refinementMethods, wrapperMethods.contains method = false := by decide
    exact apart method refines
  default _ _ := rfl

theorem isDefaulted_of_untagged (untagged : isTagged e = false) : isDefaulted e = false := by
  unfold isTagged at untagged
  unfold isDefaulted
  cases outer : outermost? e with
  | none => rfl
  | some method =>
    rw [outer, Option.any_some, tagMethods, List.contains_cons, Bool.or_eq_false_iff] at untagged
    exact untagged.1

theorem layering_coversDefault : Layering isDefaulted coversDefault (fun _ => True) where
  usual undefaulted := undefaulted
  node {e} _ closed := by
    cases e with
    | object => contradiction
    | _ => rfl
  object _ := rfl
  refinement {target method args} _ undefaulted literals := by
    have covered : (target :: args).any isDefaulted = false := by
      rw [List.any_cons, undefaulted, Bool.false_or, List.any_eq_false]
      exact fun e member => Bool.eq_false_iff.mp (literals e member)
    exact iff_of_true covered trivial
  refined _ _ _ := trivial
  default {target value} undefaulted literal := by
    have covered : [target, value].any isDefaulted = false := by
      rw [List.any_cons, undefaulted, List.any_cons, literal]
      rfl
    exact covered

namespace Layering

variable (layering : Layering kind p allows)

include layering

/-- Soundness goes down to the children, but for objects. -/
theorem sound_iff (untagged : isTagged e = false) (closed : isObject e = false) :
    Sound kind p e ↔ ∀ child ∈ e.children, Sound kind p child := by
  rw [Sound, selected_eq_nil, layering.usual (isDefaulted_of_untagged untagged),
    layering.node untagged closed, List.any_eq_false]
  simp only [Sound, true_and, Bool.not_eq_true, forall₂_and]

theorem sound_object (fields : List (String × Expr)) :
    Sound kind p (.object fields) ↔ ∀ field ∈ fields, field.2.selected p = [] := by
  rw [Sound, selected_eq_nil, layering.usual rfl, layering.object, children, List.forall_mem_map]
  simp only [true_and]

theorem sound_iff_selected (undefaulted : isDefaulted e = false) :
    Sound kind p e ↔ e.selected p = [] :=
  and_iff_right (layering.usual undefaulted)

theorem sound_zod (method : String) (args : List Expr) :
    Sound kind p (.zod method args) ↔ ∀ e ∈ args, Sound kind p e :=
  layering.sound_iff rfl rfl

theorem sound_array (items : List Expr) :
    Sound kind p (.array items) ↔ ∀ e ∈ items, Sound kind p e :=
  layering.sound_iff rfl rfl

theorem sound_member (target : Expr) (property : String) :
    Sound kind p (.member target property) ↔ Sound kind p target :=
  (layering.sound_iff rfl rfl).trans List.forall_mem_singleton

theorem sound_call {method : String} (usual : tagMethods.contains method = false) (target : Expr)
    (args : List Expr) : Sound kind p (.call target method args) ↔
      Sound kind p target ∧ ∀ e ∈ args, Sound kind p e := by
  have untagged : isTagged (.call target method args) = false := usual
  rw [layering.sound_iff untagged rfl, children, List.forall_mem_cons]

theorem sound_bare (bare : Bare e) : Sound kind p e := by
  cases e with
  | object fields =>
    refine (layering.sound_object fields).mpr fun field member => ?_
    exact absurd (List.mem_map_of_mem member) (bare.leaf ▸ List.not_mem_nil)
  | _ =>
    rw [layering.sound_iff bare.untagged rfl, bare.leaf]
    exact List.forall_mem_nil _

end Layering

end Schemata.Expr
