import Mathlib.Data.List.Forall2
import Mathlib.Data.List.Nodup
import Schemata.Compilation.TypeExpr
import Schemata.Proofs.Expr.Structure
import Schemata.Proofs.Semantics.Value

/-! What validators accept, by the documentation of the schema library. An expression stands for
a schema, or for a value, a list or a record that a schema takes as its argument; its meaning is put
together from those of its parts. Methods without a rule here have no meaning and accept nothing. -/
namespace Schemata.Semantics

/-- What an expression of a validator module stands for. -/
inductive Meaning where
  | schema (accepts : Value → Prop)
  | value (v : Value)
  | list (items : List Meaning)
  | record (fields : List (String × Meaning))
  | unknown

/-- The field of a key. Of several fields with one key, the last one counts. -/
def lastOf {α : Type} (fields : List (String × α)) (key : String) : Option α :=
  fields.reverse.lookup key

namespace Meaning

/-- Whether a value passes; only schemas can be passed. -/
def accepts : Meaning → Value → Prop
  | schema accepted, v => accepted v
  | _, _ => False

def ofKind (kind : Kind) : Meaning := schema fun v => v.kind = kind

/-- The schema that a constructor of the schema namespace makes of its arguments. -/
def construct (method : String) (args : List Meaning) : Meaning :=
  match method, args with
  | "any", [] => schema fun _ => True
  | "unknown", [] => schema fun _ => True
  | "never", [] => schema fun _ => False
  | "undefined", [] => schema fun v => v = .undefined
  | "null", [] => schema fun v => v = .null
  | "boolean", [] => ofKind .boolean
  | "number", [] => ofKind .number
  | "bigint", [] => ofKind .bigint
  | "string", [] => ofKind .string
  | "symbol", [] => ofKind .symbol
  | "literal", [value expected] => schema fun v => v = expected
  | "array", [element] => schema fun v =>
    ∃ items, v = .array items ∧ ∀ item ∈ items, element.accepts item
  | "tuple", [list elements] => schema fun v =>
    ∃ items, v = .array items ∧ List.Forall₂ accepts elements items
  | "union", [list members] => schema fun v => ∃ m ∈ members, m.accepts v
  | "object", [record fields] => schema fun v => ∃ properties, v = .object properties ∧
    ∀ key field, lastOf fields key = some field → field.accepts (Value.read properties key)
  | _, _ => unknown

/-- The schema that a method makes of a schema. -/
def chain (target : Meaning) (method : String) (args : List Meaning) : Meaning :=
  match method, args with
  | "and", [other] => schema fun v => target.accepts v ∧ other.accepts v
  | "nullable", [] => schema fun v => target.accepts v ∨ v = .null
  | "optional", [] => schema fun v => target.accepts v ∨ v = .undefined
  | _, _ => unknown

end Meaning

/-- What the parts of a validator that are not spelled out in it stand for. -/
structure Environment where
  literals : Literals
  /-- The values that the validator of a name accepts. -/
  validators : String → Value → Prop

mutual

def denote (env : Environment) : Expr → Meaning
  | .zod method args => .construct method (denoteAll env args)
  | .call target method args => (denote env target).chain method (denoteAll env args)
  | .ident name => .schema (env.validators name)
  | .object fields => .record (denoteFields env fields)
  | .array items => .list (denoteAll env items)
  | .str text => .value (.string text)
  | .number text => .value (env.literals.value text)
  | .bool value => .value (.boolean value)
  | .raw text => .value (env.literals.value text)
  | .member _ _ => .unknown
  | .arrow _ => .unknown

def denoteAll (env : Environment) : List Expr → List Meaning
  | [] => []
  | e :: es => denote env e :: denoteAll env es

def denoteFields (env : Environment) : List (String × Expr) → List (String × Meaning)
  | [] => []
  | (key, e) :: fields => (key, denote env e) :: denoteFields env fields

end

/-- Whether a validator accepts a value. -/
def Accepts (env : Environment) (e : Expr) (v : Value) : Prop := (denote env e).accepts v

variable {env : Environment} {e : Expr} {es : List Expr} {fields : List (String × Expr)}
  {v : Value}

theorem denoteAll_eq (es : List Expr) : denoteAll env es = es.map (denote env) := by
  induction es with
  | nil => rfl
  | cons e rest ih => rw [denoteAll, List.map_cons, ih]

theorem denoteFields_eq (fields : List (String × Expr)) :
    denoteFields env fields = fields.map fun field => (field.1, denote env field.2) := by
  induction fields with
  | nil => rfl
  | cons field rest ih => rw [denoteFields, List.map_cons, ih]

theorem lookup_map {α β : Type} (f : α → β) (fields : List (String × α)) (key : String) :
    (fields.map fun field => (field.1, f field.2)).lookup key = (fields.lookup key).map f := by
  induction fields with
  | nil => rfl
  | cons field rest ih =>
    rw [List.map_cons, List.lookup_cons, List.lookup_cons, ih]
    cases key == field.1 <;> rfl

theorem lastOf_map {α β : Type} (f : α → β) (fields : List (String × α)) (key : String) :
    lastOf (fields.map fun field => (field.1, f field.2)) key = (lastOf fields key).map f := by
  rw [lastOf, lastOf, ← List.map_reverse, lookup_map]

theorem lookup_eq_some_iff_mem {α : Type} {fields : List (String × α)}
    (distinct : (fields.map (·.1)).Nodup) {key : String} {a : α} :
    fields.lookup key = some a ↔ (key, a) ∈ fields := by
  induction fields with
  | nil => simp only [List.lookup_nil, reduceCtorEq, List.not_mem_nil]
  | cons field rest ih =>
    obtain ⟨fresh, distinct⟩ := List.nodup_cons.mp distinct
    rw [List.lookup_cons, List.mem_cons]
    by_cases same : key = field.1
    · subst same
      have absent : (field.1, a) ∉ rest := fun member =>
        fresh (List.mem_map.mpr ⟨_, member, rfl⟩)
      simp only [beq_self_eq_true, Option.some.injEq, absent, or_false, Prod.ext_iff, true_and]
      exact eq_comm
    · have differs : (key, a) ≠ field := fun equal => same (congrArg Prod.fst equal)
      rw [beq_eq_false_iff_ne.mpr same, ih distinct]
      simp only [differs, false_or]

/-- Among fields with different keys, all of them count. -/
theorem lastOf_eq_some_iff {α : Type} {fields : List (String × α)}
    (distinct : (fields.map (·.1)).Nodup) {key : String} {a : α} :
    lastOf fields key = some a ↔ (key, a) ∈ fields := by
  have reversed : (fields.reverse.map (·.1)).Nodup := by
    rw [List.map_reverse, List.nodup_reverse]
    exact distinct
  rw [lastOf, lookup_eq_some_iff_mem reversed, List.mem_reverse]

/-! ## Rules of acceptance -/

theorem accepts_array :
    Accepts env (.zod "array" [e]) v ↔
      ∃ items, v = .array items ∧ ∀ item ∈ items, Accepts env e item :=
  Iff.rfl

theorem accepts_tuple :
    Accepts env (.zod "tuple" [.array es]) v ↔
      ∃ items, v = .array items ∧ List.Forall₂ (Accepts env) es items := by
  have unfolded : Accepts env (.zod "tuple" [.array es]) v ↔
      ∃ items, v = .array items ∧ List.Forall₂ Meaning.accepts (denoteAll env es) items := Iff.rfl
  simp only [unfolded, denoteAll_eq, List.forall₂_map_left_iff]
  rfl

theorem accepts_union :
    Accepts env (.zod "union" [.array es]) v ↔ ∃ e ∈ es, Accepts env e v := by
  have unfolded : Accepts env (.zod "union" [.array es]) v ↔
      ∃ m ∈ denoteAll env es, m.accepts v := Iff.rfl
  rw [unfolded, denoteAll_eq]
  constructor
  · rintro ⟨m, member, accepted⟩
    obtain ⟨e, present, rfl⟩ := List.mem_map.mp member
    exact ⟨e, present, accepted⟩
  · rintro ⟨e, present, accepted⟩
    exact ⟨denote env e, List.mem_map_of_mem present, accepted⟩

/-- An object with different keys is checked field by field. -/
theorem accepts_object (distinct : (fields.map (·.1)).Nodup) :
    Accepts env (.zod "object" [.object fields]) v ↔ ∃ properties, v = .object properties ∧
      ∀ field ∈ fields, Accepts env field.2 (Value.read properties field.1) := by
  have unfolded : Accepts env (.zod "object" [.object fields]) v ↔
      ∃ properties, v = .object properties ∧ ∀ key m,
        lastOf (denoteFields env fields) key = some m → m.accepts (Value.read properties key) :=
    Iff.rfl
  simp only [unfolded, denoteFields_eq, lastOf_map, Option.map_eq_some_iff,
    lastOf_eq_some_iff distinct]
  refine exists_congr fun properties => and_congr_right fun _ => ?_
  constructor
  · intro checked field member
    exact checked field.1 _ ⟨field.2, member, rfl⟩
  · rintro checked key _ ⟨e, member, rfl⟩
    exact checked (key, e) member

theorem accepts_and {other : Expr} :
    Accepts env (.call e "and" [other]) v ↔ Accepts env e v ∧ Accepts env other v :=
  Iff.rfl

theorem accepts_nullable :
    Accepts env (.call e "nullable" []) v ↔ Accepts env e v ∨ v = .null :=
  Iff.rfl

theorem accepts_optional :
    Accepts env (.call e "optional" []) v ↔ Accepts env e v ∨ v = .undefined :=
  Iff.rfl

end Schemata.Semantics
