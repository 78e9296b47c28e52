import Schemata.Proofs.Expr.Marks
import Schemata.Proofs.Expr.ObjectUse

/-! The nodes of an expression that have some property. What is plain passes over most of what
expressions are put together from: over literals, over the constructors that types are written with,
and over the operations that schemas of any kind have. -/
namespace Schemata.Expr

/-- The nodes with a property, from left to right. -/
def selected (p : Expr → Bool) (e : Expr) : List Expr := e.parts.filter p

/-- A property that only references, lookups, the methods of object schemas and the constructors
that stand for a declaration may have. -/
structure Plain (p : Expr → Bool) : Prop where
  zod : ∀ {method}, declarationMethods.contains method = false → ∀ args, p (.zod method args) = false
  call : ∀ {method}, objectMethods.contains method = false →
    ∀ target args, p (.call target method args) = false
  object : ∀ fields, p (.object fields) = false
  array : ∀ items, p (.array items) = false
  str : ∀ value, p (.str value) = false
  number : ∀ text, p (.number text) = false
  bool : ∀ value, p (.bool value) = false
  raw : ∀ text, p (.raw text) = false

variable {p : Expr → Bool} {e : Expr} {method : String}

theorem selected_eq (p : Expr → Bool) (e : Expr) :
    e.selected p = [e].filter p ++ e.children.flatMap (selected p) := by
  rw [selected, parts_eq, ← List.singleton_append, List.filter_append, List.filter_flatMap]
  rfl

theorem selected_eq_nil : e.selected p = [] ↔
    p e = false ∧ ∀ child ∈ e.children, child.selected p = [] := by
  rw [selected_eq, List.append_eq_nil_iff, List.flatMap_eq_nil_iff, List.filter_singleton]
  cases p e <;> simp

theorem selected_of_false (passed : p e = false) :
    e.selected p = e.children.flatMap (selected p) := by
  rw [selected_eq, List.filter_singleton, passed]
  rfl

namespace Plain

variable (plain : Plain p)

include plain

theorem selected_zod (usual : declarationMethods.contains method = false) (args : List Expr) :
    (Expr.zod method args).selected p = args.flatMap (selected p) :=
  selected_of_false (plain.zod usual args)

theorem selected_call (usual : objectMethods.contains method = false) (target : Expr)
    (args : List Expr) :
    (Expr.call target method args).selected p = target.selected p ++ args.flatMap (selected p) :=
  selected_of_false (plain.call usual target args)

theorem selected_object (fields : List (String × Expr)) :
    (Expr.object fields).selected p = fields.flatMap fun field => field.2.selected p := by
  rw [selected_of_false (plain.object fields), children, List.flatMap_map]

theorem selected_array (items : List Expr) :
    (Expr.array items).selected p = items.flatMap (selected p) :=
  selected_of_false (plain.array items)

theorem selected_str (value : String) : (Expr.str value).selected p = [] :=
  selected_of_false (plain.str value)

theorem selected_number (text : String) : (Expr.number text).selected p = [] :=
  selected_of_false (plain.number text)

theorem selected_bool (value : Bool) : (Expr.bool value).selected p = [] :=
  selected_of_false (plain.bool value)

theorem selected_raw (text : String) : (Expr.raw text).selected p = [] :=
  selected_of_false (plain.raw text)

end Plain

theorem plain_isMark : Plain isMark where
  zod usual _ := usual
  call _ _ _ := rfl
  object _ := rfl
  array _ := rfl
  str _ := rfl
  number _ := rfl
  bool _ := rfl
  raw _ := rfl

end Schemata.Expr
