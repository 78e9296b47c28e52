import Mathlib.Data.List.Basic
import Schemata.Compilation.Declaration

/-! The types that the validator of a type is put together from, each by its place in the type: the
arguments that an application uses, the items of a tuple and its last open rest element, the fields
whose keys are read and the last index, and what a field is looked up in. Whatever holds of a type if
it holds of these holds of every type. -/
namespace Schemata.Compilation

open TypeScript

/-- How many arguments of a generic type its validator is built from, where it is no reference. -/
def argumentsUsed : String → Option Nat
  | "Array" | "ReadonlyArray" | "Set" | "Promise" => some 1
  | "Partial" | "Required" | "Readonly" | "NonNullable" | "Pick" | "Omit" => some 1
  | "Map" | "Record" => some 2
  | _ => none

/-- The generic types that have the validator of their first argument. -/
def transparentNames : List String := ["Readonly", "NonNullable"]

/-- What is shown of a list, each with its index. -/
def indexed {α : Type} (view : α → Option TypeExpr) : Nat → List α → List (Nat × TypeExpr)
  | _, [] => []
  | i, x :: xs => ((view x).map (i, ·)).toList ++ indexed view (i + 1) xs

/-- The type of an item. A rest element with a label is one. -/
def itemType? : TupleElement → Option TypeExpr
  | .required _ type | .optional _ type | .rest (some _) type => some type
  | .rest none _ => none

def openRestType? : TupleElement → Option TypeExpr
  | .rest none type => some type
  | _ => none

/-- The type of a property or a method whose key is read. -/
def fieldType? : Member → Option TypeExpr
  | .property key _ type _ => if key.name?.isSome then type else none
  | .method key _ signature => if key.name?.isSome then some (.function signature) else none
  | .index _ | .mapped => none

/-- What an index accepts. That over the members of a type accepts everything. -/
def indexType? : Member → Option TypeExpr
  | .index value => some value
  | .mapped => some .other
  | _ => none

def parameterType? : Parameter → Option TypeExpr
  | .mk _ type => type

/-- The types whose validators that of a type is put together from, by their places. -/
def components : TypeExpr → List (Nat × TypeExpr)
  | .apply name args => (indexed some 0 args).take ((argumentsUsed name).getD 0)
  | .array type | .readonly type | .paren type => [(0, type)]
  | .tuple elements => indexed itemType? 0 elements ++
      (indexed openRestType? 0 elements).getLast?.toList
  | .union members | .inter members => indexed some 0 members
  | .object members => indexed fieldType? 0 members ++
      (indexed indexType? 0 members).getLast?.toList
  | .function (.mk _ parameters result) => indexed parameterType? 0 parameters ++
      (result.map (parameters.length, ·)).toList
  | .lookup object index => if (literalKeys index).length = 1 then [(0, object)] else []
  | .keyword _ | .null | .undefined | .boolLiteral _ | .stringLiteral _ | .numberLiteral _ => []
  | .ref _ | .template | .other => []

/-- What stands at a place in a type and is not dropped on the way there. -/
inductive Within : TypeExpr → List Nat → TypeExpr → Prop
  | here (t : TypeExpr) : Within t [] t
  | deeper {t u : TypeExpr} {c : Nat × TypeExpr} {place : List Nat} :
    c ∈ components t → Within c.2 place u → Within t (c.1 :: place) u

variable {ctx : Context} {t u : TypeExpr} {c : Nat × TypeExpr}

/-! ## Places -/

section Indexed

variable {α : Type} {view : α → Option TypeExpr} {i : Nat} {xs : List α}

theorem indexed_types (view : α → Option TypeExpr) (i : Nat) (xs : List α) :
    (indexed view i xs).map (·.2) = xs.filterMap view := by
  induction xs generalizing i with
  | nil => rfl
  | cons x rest ih =>
    rw [indexed, List.map_append, ih, List.filterMap_cons]
    cases view x with
    | none => rfl
    | some type => rfl

/-- The first places are those of the first types. -/
theorem take_indexed_types (i count : Nat) (ts : List TypeExpr) :
    ((indexed some i ts).take count).map (·.2) = ts.take count := by
  rw [List.map_take, indexed_types, List.filterMap_some]

theorem flatMap_indexed {β : Type} (f : TypeExpr → List β) :
    (indexed view i xs).flatMap (fun c => f c.2) = (xs.filterMap view).flatMap f := by
  rw [← indexed_types view i xs, List.flatMap_map]

theorem flatMap_getLast_indexed {β : Type} (f : TypeExpr → List β) :
    (indexed view i xs).getLast?.toList.flatMap (fun c => f c.2) =
      (xs.filterMap view).getLast?.toList.flatMap f := by
  rw [← indexed_types view i xs, List.getLast?_map]
  cases (indexed view i xs).getLast? <;> simp

/-- What is shown of a list is smaller than the list if it is no larger than what it is shown of. -/
theorem indexed_lt [SizeOf α] (smaller : ∀ x type, view x = some type → sizeOf type ≤ sizeOf x)
    (shown : c ∈ indexed view i xs) : sizeOf c.2 < sizeOf xs := by
  have listed : c.2 ∈ xs.filterMap view := indexed_types view i xs ▸ List.mem_map_of_mem shown
  obtain ⟨x, member, found⟩ := List.mem_filterMap.mp listed
  exact Nat.lt_of_le_of_lt (smaller x c.2 found) (List.sizeOf_lt_of_mem member)

end Indexed

theorem itemType?_le (element : TupleElement) (type : TypeExpr)
    (found : itemType? element = some type) : sizeOf type ≤ sizeOf element := by
  unfold itemType? at found
  split at found <;> simp_all

theorem openRestType?_le (element : TupleElement) (type : TypeExpr)
    (found : openRestType? element = some type) : sizeOf type ≤ sizeOf element := by
  unfold openRestType? at found
  split at found <;> simp_all

theorem fieldType?_le (member : Member) (type : TypeExpr)
    (found : fieldType? member = some type) : sizeOf type ≤ sizeOf member := by
  cases member with
  | property key _ declared _ =>
    rw [fieldType?] at found
    split at found
    · rw [found, Member.property.sizeOf_spec, Option.some.sizeOf_spec]
      omega
    · contradiction
  | method key _ signature =>
    rw [fieldType?] at found
    split at found
    · obtain rfl := Option.some.inj found
      rw [TypeExpr.function.sizeOf_spec, Member.method.sizeOf_spec]
      omega
    · contradiction
  | index | mapped => contradiction

theorem indexType?_le (member : Member) (type : TypeExpr)
    (found : indexType? member = some type) : sizeOf type ≤ sizeOf member := by
  unfold indexType? at found
  split at found
  · obtain rfl := Option.some.inj found
    rw [Member.index.sizeOf_spec]
    omega
  · obtain rfl := Option.some.inj found
    exact Nat.le_refl _
  · contradiction

theorem parameterType?_le (parameter : Parameter) (type : TypeExpr)
    (found : parameterType? parameter = some type) : sizeOf type ≤ sizeOf parameter := by
  cases parameter with
  | mk _ declared =>
    rw [parameterType?] at found
    rw [found, Parameter.mk.sizeOf_spec, Option.some.sizeOf_spec]
    omega

theorem components_lt (below : c ∈ components t) : sizeOf c.2 < sizeOf t := by
  have listed {ts : List TypeExpr} (member : c ∈ indexed some 0 ts) : sizeOf c.2 < sizeOf ts :=
    indexed_lt (fun x type same => Nat.le_of_eq (congrArg sizeOf (Option.some.inj same).symm)) member
  have last {xs : List (Nat × TypeExpr)} (member : c ∈ xs.getLast?.toList) : c ∈ xs :=
    List.mem_of_getLast? (Option.mem_toList.mp member)
  cases t with
  | apply name args =>
    have smaller := listed (List.mem_of_mem_take below)
    rw [TypeExpr.apply.sizeOf_spec]
    omega
  | array type | readonly type | paren type =>
    obtain rfl : c = (0, type) := List.mem_singleton.mp below
    simp
  | union members | inter members =>
    have smaller := listed below
    simp only [TypeExpr.union.sizeOf_spec, TypeExpr.inter.sizeOf_spec]
    omega
  | tuple elements =>
    have smaller : sizeOf c.2 < sizeOf elements := by
      rcases List.mem_append.mp below with item | rest
      · exact indexed_lt itemType?_le item
      · exact indexed_lt openRestType?_le (last rest)
    rw [TypeExpr.tuple.sizeOf_spec]
    omega
  | object members =>
    have smaller : sizeOf c.2 < sizeOf members := by
      rcases List.mem_append.mp below with field | index
      · exact indexed_lt fieldType?_le field
      · exact indexed_lt indexType?_le (last index)
    rw [TypeExpr.object.sizeOf_spec]
    omega
  | function signature =>
    cases signature with
    | mk typeParameters parameters result =>
      rw [TypeExpr.function.sizeOf_spec, Signature.mk.sizeOf_spec]
      rcases List.mem_append.mp below with parameter | returned
      · have smaller := indexed_lt parameterType?_le parameter
        omega
      · obtain ⟨type, rfl, rfl⟩ := Option.map_eq_some_iff.mp (Option.mem_toList.mp returned)
        simp only [Option.some.sizeOf_spec]
        omega
  | lookup object index =>
    rw [components] at below
    split at below
    · obtain rfl := List.mem_singleton.mp below
      simp only [TypeExpr.lookup.sizeOf_spec]
      omega
    · contradiction
  | _ => exact absurd below List.not_mem_nil

/-- A property of types holds of all of them if each type has it whose components have it. -/
theorem components_induction {motive : TypeExpr → Prop}
    (node : ∀ t, (∀ c ∈ components t, motive c.2) → motive t) (t : TypeExpr) : motive t :=
  node t fun c _ => components_induction node c.2
termination_by sizeOf t
decreasing_by exact components_lt ‹_›

/-- What holds within a type holds of the type itself and within its components. -/
theorem forall_within_iff {P : List Nat → TypeExpr → Prop} :
    (∀ place u, Within t place u → P place u) ↔
      P [] t ∧ ∀ c ∈ components t, ∀ place u, Within c.2 place u → P (c.1 :: place) u := by
  constructor
  · intro all
    exact ⟨all [] t (.here t), fun c below place u inside => all _ u (.deeper below inside)⟩
  · rintro ⟨here, deeper⟩ place u inside
    cases inside with
    | here => exact here
    | deeper below inside => exact deeper _ below _ u inside

/-! ## Compiled components -/

theorem compileAll_eq (ts : List TypeExpr) : compileAll ctx ts = ts.map (compile ctx) := by
  induction ts with
  | nil => rfl
  | cons t rest ih => rw [compileAll, List.map_cons, ih]

theorem application_eq_reference {name : String} (unused : argumentsUsed name = none)
    (args : List TypeExpr) (es : List Expr) :
    application ctx name args es = reference ctx name := by
  unfold application
  split
  case h_13 => rfl
  all_goals contradiction

/-- What an array type repeats, and any other type itself. -/
def restElement : TypeExpr → TypeExpr
  | .array element => element
  | t => t

theorem getLast?_cons_map {α β : Type} (f : α → β) (x : α) (xs : List α) :
    (x :: xs).getLast?.map f = (xs.getLast?.map f <|> some (f x)) := by
  rw [List.getLast?_cons]
  cases xs.getLast? with
  | none => rfl
  | some last => rfl

theorem compileRest_eq (ctx : Context) (es : List TupleElement) : compileRest ctx es =
    (es.filterMap openRestType?).getLast?.map fun t => compile ctx (restElement t) := by
  induction es with
  | nil => rfl
  | cons element rest ih =>
    cases element with
    | required | optional => exact ih
    | rest label type =>
      cases label with
      | some label => exact ih
      | none =>
        have last : compileRest ctx (.rest none type :: rest) =
            (compileRest ctx rest <|> some (compile ctx (restElement type))) := by
          cases type <;> rfl
        have shown : openRestType? (.rest none type) = some type := rfl
        rw [last, ih, List.filterMap_cons_some shown, getLast?_cons_map]

theorem compileIndex_eq (ctx : Context) (ms : List Member) :
    compileIndex ctx ms = (ms.filterMap indexType?).getLast?.map (compile ctx) := by
  induction ms with
  | nil => rfl
  | cons member rest ih =>
    cases member with
    | property | method => exact ih
    | index value =>
      have shown : indexType? (.index value) = some value := rfl
      rw [compileIndex, ih, List.filterMap_cons_some shown, getLast?_cons_map]
    | mapped =>
      have shown : indexType? .mapped = some .other := rfl
      rw [compileIndex, ih, List.filterMap_cons_some shown, getLast?_cons_map]
      rfl

end Schemata.Compilation
