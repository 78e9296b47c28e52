import Schemata.Proofs.Expr.Erasure

/-! Validators with other names for what they refer to. Nothing but the references changes, so that
erasure decides by the new names and takes out the same lookups. -/
namespace Schemata.Expr

mutual

/-- The expression with each reference renamed. -/
def rename (f : String → String) : Expr → Expr
  | .ident name => .ident (f name)
  | .zod method args => .zod method (renameAll f args)
  | .call target method args => .call (target.rename f) method (renameAll f args)
  | .member target property => .member (target.rename f) property
  | .object fields => .object (renameFields f fields)
  | .array items => .array (renameAll f items)
  | .arrow body => .arrow (body.rename f)
  | .str value => .str value
  | .number text => .number text
  | .bool value => .bool value
  | .raw text => .raw text

def renameAll (f : String → String) : List Expr → List Expr
  | [] => []
  | e :: es => e.rename f :: renameAll f es

def renameFields (f : String → String) : List (String × Expr) → List (String × Expr)
  | [] => []
  | (key, e) :: es => (key, e.rename f) :: renameFields f es

end

variable {f : String → String} {deferred : String → Bool} {e : Expr}

theorem renameAll_eq (es : List Expr) : renameAll f es = es.map (rename f) := by
  induction es with
  | nil => rfl
  | cons e rest ih => rw [renameAll, List.map_cons, ih]

theorem renameFields_eq (fields : List (String × Expr)) :
    renameFields f fields = fields.map fun field => (field.1, field.2.rename f) := by
  induction fields with
  | nil => rfl
  | cons field rest ih => rw [renameFields, List.map_cons, ih]

section Nodes

variable {target body : Expr} {method property : String} {args items : List Expr}
  {fields : List (String × Expr)}

@[simp] theorem rename_ident {name : String} : (Expr.ident name).rename f = .ident (f name) := rfl

@[simp] theorem rename_zod :
    (Expr.zod method args).rename f = .zod method (args.map (rename f)) := by
  rw [rename, renameAll_eq]

@[simp] theorem rename_call : (Expr.call target method args).rename f =
    .call (target.rename f) method (args.map (rename f)) := by
  rw [rename, renameAll_eq]

@[simp] theorem rename_member :
    (Expr.member target property).rename f = .member (target.rename f) property := rfl

@[simp] theorem rename_object : (Expr.object fields).rename f =
    .object (fields.map fun field => (field.1, field.2.rename f)) := by
  rw [rename, renameFields_eq]

@[simp] theorem rename_array : (Expr.array items).rename f = .array (items.map (rename f)) := by
  rw [rename, renameAll_eq]

@[simp] theorem rename_arrow : (Expr.arrow body).rename f = .arrow (body.rename f) := rfl

@[simp] theorem rename_str {value : String} : (Expr.str value).rename f = .str value := rfl

@[simp] theorem rename_number {text : String} : (Expr.number text).rename f = .number text := rfl

@[simp] theorem rename_bool {value : Bool} : (Expr.bool value).rename f = .bool value := rfl

@[simp] theorem rename_raw {text : String} : (Expr.raw text).rename f = .raw text := rfl

@[simp] theorem rename_schema : (schema method).rename f = schema method := rfl

end Nodes

theorem mentions_rename (e : Expr) : (e.rename f).mentions = e.mentions.map f := by
  induction e with
  | zod method args ih | array args ih =>
    simp only [rename_zod, rename_array, mentions, mentionsAll_eq, List.flatMap_map,
      List.map_flatMap]
    exact List.flatMap_congr ih
  | call target method args ofTarget ofArgs =>
    simp only [rename_call, mentions, mentionsAll_eq, List.flatMap_map, List.map_append,
      List.map_flatMap, ofTarget]
    rw [List.flatMap_congr ofArgs]
  | member target property ih => exact ih
  | object fields ih =>
    simp only [rename_object, mentions, mentionsFields_eq, List.flatMap_map, List.map_flatMap]
    exact List.flatMap_congr ih
  | arrow body ih => exact ih
  | ident | str | number | bool | raw => rfl

/-- At a node that is no reference, renaming goes on to the children. -/
theorem rename_of_not_ident (other : ∀ name, e ≠ .ident name) :
    e.rename f = e.mapChildren (rename f) := by
  cases e with
  | ident name => exact absurd rfl (other name)
  | _ => simp [mapChildren]

/-- Where nothing is mentioned nothing is renamed. -/
theorem rename_eq_self (quiet : e.mentions = []) : e.rename f = e := by
  induction e using children_induction with
  | node e ih =>
    have other (name : String) : e ≠ .ident name := by
      rintro rfl
      contradiction
    rw [rename_of_not_ident other]
    apply mapChildren_eq_self
    intro child below
    apply ih child below
    exact List.subset_nil.mp (quiet ▸ mentions_child below)

theorem lookupTarget?_rename (e : Expr) : lookupTarget? (e.rename f) = (lookupTarget? e).map f := by
  cases e with
  | member target property =>
    cases target with
    | ident name =>
      rw [rename_member, rename_ident, lookupTarget?, lookupTarget?]
      split
      · rfl
      · rfl
    | _ => rfl
  | _ => rfl

theorem isErased_rename (f : String → String) (deferred : String → Bool) (e : Expr) :
    isErased deferred (e.rename f) = isErased (fun name => deferred (f name)) e := by
  cases e with
  | member target property =>
    rw [rename_member, isErased, isErased, isDeferredLookup, isDeferredLookup, lookupTarget?_rename,
      Option.any_map]
  | _ => rfl

theorem eraseLookups_rename (e : Expr) : (e.rename f).eraseLookups deferred =
    (e.eraseLookups fun name => deferred (f name)).rename f := by
  induction e using children_induction with
  | node e ih =>
    have same := isErased_rename f deferred e
    cases erased : isErased (fun name => deferred (f name)) e with
    | true =>
      rw [eraseLookups_of_isErased (same.trans erased), eraseLookups_of_isErased erased]
      rfl
    | false =>
      rw [eraseLookups_of_stays (same.trans erased), eraseLookups_of_stays erased]
      by_cases ident : ∃ name, e = .ident name
      · obtain ⟨name, rfl⟩ := ident
        rfl
      · have other (name : String) : e ≠ .ident name := fun isIdent => ident ⟨name, isIdent⟩
        have still (name : String) :
            e.mapChildren (eraseLookups fun name => deferred (f name)) ≠ .ident name := by
          rw [← eraseLookups_of_stays erased]
          exact fun isIdent => other name (eraseLookups_eq_ident.mp isIdent)
        rw [rename_of_not_ident other, rename_of_not_ident still, mapChildren_mapChildren,
          mapChildren_mapChildren]
        exact mapChildren_congr ih

end Schemata.Expr
