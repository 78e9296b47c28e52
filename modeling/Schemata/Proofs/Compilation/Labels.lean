import Schemata.Proofs.Compilation.Injectivity
import Schemata.Proofs.Compilation.Scope

/-! The labels of tuple elements. Those of required and optional elements carry no meaning. A rest
element with a label is an item like any other, so without its label the tuple has an item less. -/
namespace Schemata.Compilation

open TypeScript

def isLabelledRest : TupleElement → Bool
  | .rest (some _) _ => true
  | _ => false

def withoutLabel : TupleElement → TupleElement
  | .required _ type => .required none type
  | .optional _ type => .optional none type
  | .rest _ type => .rest none type

/-- What is chosen in the type at a place of a type. -/
def under (chosen : List Nat → Bool) (i : Nat) : List Nat → Bool := fun place => chosen (i :: place)

mutual

/-- A type without the labels of the tuples at the chosen places. -/
def unlabel (chosen : List Nat → Bool) : TypeExpr → TypeExpr
  | .apply name args => .apply name (unlabelAll chosen 0 args)
  | .array type => .array (unlabel (under chosen 0) type)
  | .readonly type => .readonly (unlabel (under chosen 0) type)
  | .paren type => .paren (unlabel (under chosen 0) type)
  | .tuple elements =>
    let inner := unlabelElements chosen 0 elements
    .tuple (if chosen [] then inner.map withoutLabel else inner)
  | .union members => .union (unlabelAll chosen 0 members)
  | .inter members => .inter (unlabelAll chosen 0 members)
  | .object members => .object (unlabelMembers chosen 0 members)
  | .function signature => .function (unlabelSignature chosen signature)
  | .lookup object index =>
    .lookup (unlabel (under chosen 0) object) (unlabel (under chosen 1) index)
  | .keyword k => .keyword k
  | .null => .null
  | .undefined => .undefined
  | .boolLiteral value => .boolLiteral value
  | .stringLiteral literal => .stringLiteral literal
  | .numberLiteral text => .numberLiteral text
  | .ref name => .ref name
  | .template => .template
  | .other => .other

def unlabelAll (chosen : List Nat → Bool) (i : Nat) : List TypeExpr → List TypeExpr
  | [] => []
  | t :: ts => unlabel (under chosen i) t :: unlabelAll chosen (i + 1) ts

def unlabelElements (chosen : List Nat → Bool) (i : Nat) : List TupleElement → List TupleElement
  | [] => []
  | .required label type :: es =>
    .required label (unlabel (under chosen i) type) :: unlabelElements chosen (i + 1) es
  | .optional label type :: es =>
    .optional label (unlabel (under chosen i) type) :: unlabelElements chosen (i + 1) es
  | .rest label type :: es =>
    .rest label (unlabel (under chosen i) type) :: unlabelElements chosen (i + 1) es

def unlabelMembers (chosen : List Nat → Bool) (i : Nat) : List Member → List Member
  | [] => []
  | .property key isOptional type doc :: ms =>
    .property key isOptional (unlabelOption (under chosen i) type) doc ::
      unlabelMembers chosen (i + 1) ms
  | .method key isOptional signature :: ms =>
    .method key isOptional (unlabelSignature (under chosen i) signature) ::
      unlabelMembers chosen (i + 1) ms
  | .index value :: ms => .index (unlabel (under chosen i) value) :: unlabelMembers chosen (i + 1) ms
  | .mapped :: ms => .mapped :: unlabelMembers chosen (i + 1) ms

def unlabelSignature (chosen : List Nat → Bool) : Signature → Signature
  | .mk typeParameters parameters result =>
    .mk typeParameters (unlabelParameters chosen 0 parameters)
      (unlabelOption (under chosen parameters.length) result)

def unlabelParameters (chosen : List Nat → Bool) (i : Nat) : List Parameter → List Parameter
  | [] => []
  | .mk isOptional type :: ps =>
    .mk isOptional (unlabelOption (under chosen i) type) :: unlabelParameters chosen (i + 1) ps

def unlabelOption (chosen : List Nat → Bool) : Option TypeExpr → Option TypeExpr
  | some type => some (unlabel chosen type)
  | none => none

end

/-- Whether nothing changes without the labels of the tuples at the chosen places. -/
def Unaffected (ctx : Context) (chosen : List Nat → Bool) (t : TypeExpr) : Prop :=
  compile ctx (unlabel chosen t) = compile ctx t

variable {ctx : Context} {chosen : List Nat → Bool} {i : Nat} {t : TypeExpr}

/-! ## Lists of types -/

theorem length_compileAll_unlabel (ts : List TypeExpr) :
    (compileAll ctx (unlabelAll chosen i ts)).length = (compileAll ctx ts).length := by
  induction ts generalizing i with
  | nil => rfl
  | cons t rest ih => rw [unlabelAll, compileAll, compileAll, List.length_cons, ih, List.length_cons]

theorem compileAll_unlabel (ts : List TypeExpr) :
    compileAll ctx (unlabelAll chosen i ts) = compileAll ctx ts ↔
      ∀ c ∈ indexed some i ts, Unaffected ctx (under chosen c.1) c.2 := by
  induction ts generalizing i with
  | nil => simp [unlabelAll, indexed]
  | cons t rest ih =>
    rw [unlabelAll, compileAll, compileAll, List.cons.injEq, ih, indexed]
    simp [Unaffected]

theorem isNull_unlabel (chosen : List Nat → Bool) (t : TypeExpr) :
    isNull (unlabel chosen t) = isNull t := by
  cases t <;> rfl

theorem isUndefined_unlabel (chosen : List Nat → Bool) (t : TypeExpr) :
    isUndefined (unlabel chosen t) = isUndefined t := by
  cases t <;> rfl

theorem any_unlabel {property : TypeExpr → Bool}
    (kept : ∀ chosen t, property (unlabel chosen t) = property t) (ts : List TypeExpr) :
    (unlabelAll chosen i ts).any property = ts.any property := by
  induction ts generalizing i with
  | nil => rfl
  | cons t rest ih => rw [unlabelAll, List.any_cons, List.any_cons, kept, ih]

theorem unaffected_of_isNullish (nullish : isNullish t = true) : Unaffected ctx chosen t := by
  cases t with
  | null | undefined => rfl
  | _ => contradiction

theorem isNullish_unlabel (chosen : List Nat → Bool) (t : TypeExpr) :
    isNullish (unlabel chosen t) = isNullish t := by
  rw [isNullish, isNullish, isNull_unlabel, isUndefined_unlabel]

theorem length_compileConcrete_unlabel (ts : List TypeExpr) :
    (compileConcrete ctx (unlabelAll chosen i ts)).length = (compileConcrete ctx ts).length := by
  induction ts generalizing i with
  | nil => rfl
  | cons t rest ih =>
    rw [unlabelAll, compileConcrete, compileConcrete, isNullish_unlabel]
    split
    · exact ih
    · rw [List.length_cons, ih, List.length_cons]

theorem compileConcrete_unlabel (ts : List TypeExpr) :
    compileConcrete ctx (unlabelAll chosen i ts) = compileConcrete ctx ts ↔
      ∀ c ∈ indexed some i ts, Unaffected ctx (under chosen c.1) c.2 := by
  induction ts generalizing i with
  | nil => simp [unlabelAll, indexed]
  | cons t rest ih =>
    rw [unlabelAll, compileConcrete, compileConcrete, isNullish_unlabel, indexed]
    split
    · rename_i nullish
      simp [ih, unaffected_of_isNullish nullish]
    · rw [List.cons.injEq, ih]
      simp [Unaffected]

theorem unionWith_unlabel (hasNull hasUndefined : Bool) (ts : List TypeExpr) :
    unionWith hasNull hasUndefined (compileConcrete ctx (unlabelAll chosen i ts))
        (compileAll ctx (unlabelAll chosen i ts)) =
      unionWith hasNull hasUndefined (compileConcrete ctx ts) (compileAll ctx ts) ↔
        ∀ c ∈ indexed some i ts, Unaffected ctx (under chosen c.1) c.2 := by
  rw [unionWith_inj (length_compileConcrete_unlabel ts) (length_compileAll_unlabel ts),
    compileConcrete_unlabel, compileAll_unlabel, ite_self]

mutual

theorem literalKeys_unlabel (chosen : List Nat → Bool) : ∀ t : TypeExpr,
    literalKeys (unlabel chosen t) = literalKeys t
  | .paren type => literalKeys_unlabel (under chosen 0) type
  | .union members => literalKeysAll_unlabel chosen 0 members
  | .keyword _ | .null | .undefined | .boolLiteral _ | .stringLiteral _ | .numberLiteral _ => rfl
  | .ref _ | .apply _ _ | .array _ | .readonly _ | .tuple _ | .inter _ | .object _ => rfl
  | .function _ | .lookup _ _ | .template | .other => rfl

theorem literalKeysAll_unlabel (chosen : List Nat → Bool) (i : Nat) : ∀ ts : List TypeExpr,
    literalKeysAll (unlabelAll chosen i ts) = literalKeysAll ts
  | [] => rfl
  | t :: ts => by
    rw [unlabelAll, literalKeysAll, literalKeysAll, literalKeys_unlabel (under chosen i) t,
      literalKeysAll_unlabel chosen (i + 1) ts]

end

theorem getElem?_unlabelAll_keys (chosen : List Nat → Bool) (i n : Nat) (ts : List TypeExpr) :
    ((unlabelAll chosen i ts)[n]?).elim [] literalKeys = (ts[n]?).elim [] literalKeys := by
  induction ts generalizing i n with
  | nil => rfl
  | cons t rest ih =>
    cases n with
    | zero => exact literalKeys_unlabel _ t
    | succ n => exact ih (i + 1) n

theorem take_compileAll_unlabel (ts : List TypeExpr) (n : Nat) :
    (compileAll ctx (unlabelAll chosen i ts)).take n = (compileAll ctx ts).take n ↔
      ∀ c ∈ (indexed some i ts).take n, Unaffected ctx (under chosen c.1) c.2 := by
  induction ts generalizing i n with
  | nil => simp [unlabelAll, indexed]
  | cons t rest ih =>
    cases n with
    | zero => simp
    | succ n =>
      rw [unlabelAll, compileAll, compileAll, List.take_succ_cons, List.take_succ_cons,
        List.cons.injEq, ih, indexed]
      simp [Unaffected]

/-! ## Tuples -/

theorem isLabelledRest_unlabel (chosen : List Nat → Bool) (i : Nat) (es : List TupleElement) :
    (unlabelElements chosen i es).map isLabelledRest = es.map isLabelledRest := by
  induction es generalizing i with
  | nil => rfl
  | cons element rest ih =>
    cases element with
    | required label type | optional label type =>
      rw [unlabelElements, List.map_cons, List.map_cons, ih]
      rfl
    | rest label type =>
      rw [unlabelElements, List.map_cons, List.map_cons, ih]
      cases label <;> rfl

theorem compileItems_unlabel (es : List TupleElement) :
    compileItems ctx (unlabelElements chosen i es) = compileItems ctx es ↔
      ∀ c ∈ indexed itemType? i es, Unaffected ctx (under chosen c.1) c.2 := by
  induction es generalizing i with
  | nil => simp [unlabelElements, indexed]
  | cons element rest ih =>
    cases element with
    | required label type =>
      rw [unlabelElements, compileItems, compileItems, List.cons.injEq, ih, indexed]
      simp [Unaffected, itemType?]
    | optional label type =>
      rw [unlabelElements, compileItems, compileItems, List.cons.injEq, ih, indexed]
      simp [Unaffected, itemType?]
    | rest label type =>
      cases label with
      | none =>
        rw [unlabelElements, compileItems, compileItems, ih, indexed]
        simp [itemType?]
      | some label =>
        rw [unlabelElements, compileItems, compileItems, List.cons.injEq, ih, indexed]
        simp [Unaffected, itemType?]

theorem openRestType?_unlabel (es : List TupleElement) :
    (unlabelElements chosen i es).filterMap openRestType? =
      (indexed openRestType? i es).map fun c => unlabel (under chosen c.1) c.2 := by
  induction es generalizing i with
  | nil => rfl
  | cons element rest ih =>
    cases element with
    | required label type | optional label type => exact ih
    | rest label type =>
      cases label with
      | none =>
        have shown (type : TypeExpr) : openRestType? (.rest none type) = some type := rfl
        rw [unlabelElements, List.filterMap_cons_some (shown _), ih, indexed, shown]
        rfl
      | some label => exact ih

theorem restElement_unlabel (chosen : List Nat → Bool) (t : TypeExpr) :
    compile ctx (restElement (unlabel chosen t)) = compile ctx (restElement t) ↔
      Unaffected ctx chosen t := by
  cases t with
  | array element => simp [Unaffected, unlabel, restElement, compile]
  | _ => exact Iff.rfl

theorem compileRest_unlabel (es : List TupleElement) :
    compileRest ctx (unlabelElements chosen i es) = compileRest ctx es ↔
      ∀ c ∈ (indexed openRestType? i es).getLast?.toList,
        Unaffected ctx (under chosen c.1) c.2 := by
  rw [compileRest_eq, compileRest_eq, openRestType?_unlabel, ← indexed_types openRestType? i es,
    List.getLast?_map, List.getLast?_map]
  cases (indexed openRestType? i es).getLast? with
  | none => simp
  | some c => simp [restElement_unlabel]

/-- Without its labels a tuple has an item less for each labelled rest element. -/
theorem length_compileItems_withoutLabel (ctx : Context) (es : List TupleElement) :
    (compileItems ctx (es.map withoutLabel)).length + es.countP isLabelledRest =
      (compileItems ctx es).length := by
  induction es with
  | nil => rfl
  | cons element rest ih =>
    rw [List.map_cons, List.countP_cons]
    cases element with
    | required label type | optional label type =>
      simp only [withoutLabel, compileItems, List.length_cons, isLabelledRest, Bool.false_eq_true,
        if_false]
      omega
    | rest label type =>
      cases label with
      | none => exact ih
      | some label =>
        simp only [withoutLabel, compileItems, List.length_cons, isLabelledRest, if_true]
        omega

theorem compileItems_withoutLabel {es : List TupleElement} (free : es.countP isLabelledRest = 0) :
    compileItems ctx (es.map withoutLabel) = compileItems ctx es := by
  induction es with
  | nil => rfl
  | cons element rest ih =>
    rw [List.countP_cons] at free
    have items := ih (by omega)
    cases element with
    | required label type | optional label type => exact congrArg (_ :: ·) items
    | rest label type =>
      cases label with
      | none => exact items
      | some label => simp [isLabelledRest] at free

theorem compileRest_withoutLabel {es : List TupleElement} (free : es.countP isLabelledRest = 0) :
    compileRest ctx (es.map withoutLabel) = compileRest ctx es := by
  have same : (es.map withoutLabel).filterMap openRestType? = es.filterMap openRestType? := by
    rw [List.filterMap_map]
    refine List.filterMap_congr fun element member => ?_
    have unlabelled := List.countP_eq_zero.mp free element member
    cases element with
    | required | optional => rfl
    | rest label type =>
      cases label with
      | none => rfl
      | some label => exact absurd rfl unlabelled
  rw [compileRest_eq, compileRest_eq, same]

theorem countP_unlabel (chosen : List Nat → Bool) (i : Nat) (es : List TupleElement) :
    (unlabelElements chosen i es).countP isLabelledRest = es.countP isLabelledRest := by
  have same := congrArg (List.countP id) (isLabelledRest_unlabel chosen i es)
  rwa [List.countP_map, List.countP_map] at same

theorem length_compileItems_unlabel (ctx : Context) (chosen : List Nat → Bool) (i : Nat)
    (es : List TupleElement) :
    (compileItems ctx (unlabelElements chosen i es)).length = (compileItems ctx es).length := by
  induction es generalizing i with
  | nil => rfl
  | cons element rest ih =>
    cases element with
    | required label type | optional label type => exact congrArg Nat.succ (ih _)
    | rest label type =>
      cases label with
      | none => exact ih _
      | some label => exact congrArg Nat.succ (ih _)

theorem tuple_unlabel (es : List TupleElement) : Unaffected ctx chosen (.tuple es) ↔
    (chosen [] = true → ∀ e ∈ es, isLabelledRest e = false) ∧
      ∀ c ∈ components (.tuple es), Unaffected ctx (under chosen c.1) c.2 := by
  rw [components, List.forall_mem_append, ← compileItems_unlabel, ← compileRest_unlabel, Unaffected,
    unlabel]
  cases here : chosen [] with
  | false => simp [compile_tuple_inj]
  | true =>
    have labels := countP_unlabel chosen 0 es
    have none_iff : es.countP isLabelledRest = 0 ↔ ∀ e ∈ es, isLabelledRest e = false := by
      simp [List.countP_eq_zero]
    rw [if_pos rfl, compile_tuple_inj, ← none_iff]
    by_cases free : es.countP isLabelledRest = 0
    · rw [compileItems_withoutLabel (labels.trans free), compileRest_withoutLabel (labels.trans free)]
      simp [free]
    · -- The items are fewer than before, so they are not the same.
      have fewer := length_compileItems_withoutLabel ctx (unlabelElements chosen 0 es)
      have before := length_compileItems_unlabel ctx chosen 0 es
      constructor
      · rintro ⟨items, _⟩
        have lengths := congrArg List.length items
        omega
      · rintro ⟨none, _⟩
        exact absurd (none rfl) free

/-! ## Members and parameters -/

theorem compileOr_unlabel (default : Expr) (type : Option TypeExpr) :
    compileOr ctx default (unlabelOption chosen type) = compileOr ctx default type ↔
      ∀ t ∈ type, Unaffected ctx chosen t := by
  cases type with
  | none => simp [unlabelOption]
  | some type => simp [unlabelOption, compileOr, Unaffected]

theorem isEmpty_compileFields_unlabel (ms : List Member) :
    (compileFields ctx (unlabelMembers chosen i ms)).isEmpty = (compileFields ctx ms).isEmpty := by
  induction ms generalizing i with
  | nil => rfl
  | cons member rest ih =>
    cases member with
    | property key isOptional type doc | method key isOptional signature =>
      rw [unlabelMembers, compileFields, compileFields]
      cases key.name? with
      | none => exact ih
      | some name => rfl
    | index | mapped => exact ih

theorem compileFields_unlabel (ms : List Member) :
    compileFields ctx (unlabelMembers chosen i ms) = compileFields ctx ms ↔
      ∀ c ∈ indexed fieldType? i ms, Unaffected ctx (under chosen c.1) c.2 := by
  induction ms generalizing i with
  | nil => simp [unlabelMembers, indexed]
  | cons member rest ih =>
    cases member with
    | property key isOptional type doc =>
      rw [unlabelMembers, compileFields, compileFields, indexed, fieldType?]
      cases key.name? with
      | none => simp [ih]
      | some name =>
        simp only [List.cons.injEq, Prod.mk.injEq, true_and, field_inj, compileOr_unlabel, ih]
        cases type <;> simp
    | method key isOptional signature =>
      rw [unlabelMembers, compileFields, compileFields, indexed, fieldType?]
      cases key.name? with
      | none => simp [ih]
      | some name =>
        simp only [List.cons.injEq, Prod.mk.injEq, true_and, callIf_inj, ih]
        simp [Unaffected, unlabel, compile]
    | index | mapped =>
      rw [unlabelMembers, compileFields, compileFields, ih, indexed]
      simp [fieldType?]

theorem indexType?_unlabel (ms : List Member) :
    (unlabelMembers chosen i ms).filterMap indexType? =
      (indexed indexType? i ms).map fun c => unlabel (under chosen c.1) c.2 := by
  induction ms generalizing i with
  | nil => rfl
  | cons member rest ih =>
    cases member with
    | property | method => exact ih
    | index value =>
      have shown (value : TypeExpr) : indexType? (.index value) = some value := rfl
      rw [unlabelMembers, List.filterMap_cons_some (shown _), ih, indexed, shown]
      rfl
    | mapped =>
      have shown : indexType? .mapped = some .other := rfl
      rw [unlabelMembers, List.filterMap_cons_some shown, ih, indexed, shown]
      rfl

theorem compileIndex_unlabel (ms : List Member) :
    compileIndex ctx (unlabelMembers chosen i ms) = compileIndex ctx ms ↔
      ∀ c ∈ (indexed indexType? i ms).getLast?.toList, Unaffected ctx (under chosen c.1) c.2 := by
  rw [compileIndex_eq, compileIndex_eq, indexType?_unlabel, ← indexed_types indexType? i ms,
    List.getLast?_map, List.getLast?_map]
  cases (indexed indexType? i ms).getLast? with
  | none => simp
  | some c => simp [Unaffected]

theorem isSome_compileIndex_unlabel (ms : List Member) :
    (compileIndex ctx (unlabelMembers chosen i ms)).isSome = (compileIndex ctx ms).isSome := by
  rw [compileIndex_eq, compileIndex_eq, indexType?_unlabel, ← indexed_types indexType? i ms,
    List.getLast?_map, List.getLast?_map]
  cases (indexed indexType? i ms).getLast? <;> rfl

theorem compileParameters_unlabel (ps : List Parameter) :
    compileParameters ctx (unlabelParameters chosen i ps) = compileParameters ctx ps ↔
      ∀ c ∈ indexed parameterType? i ps, Unaffected ctx (under chosen c.1) c.2 := by
  induction ps generalizing i with
  | nil => simp [unlabelParameters, indexed]
  | cons parameter rest ih =>
    cases parameter with
    | mk isOptional type =>
      rw [unlabelParameters, compileParameters, compileParameters, List.cons.injEq, callIf_inj,
        compileOr_unlabel, ih, indexed, parameterType?]
      cases type <;> simp

/-! ## Types -/

theorem unaffected_iff_of_ne_tuple (other : ∀ elements, t ≠ .tuple elements) :
    Unaffected ctx chosen t ↔ ∀ c ∈ components t, Unaffected ctx (under chosen c.1) c.2 := by
  cases t with
  | tuple elements => exact absurd rfl (other elements)
  | apply name args =>
    rw [components, ← take_compileAll_unlabel, Unaffected, unlabel, compile, compile,
      application_inj (length_compileAll_unlabel args) (getElem?_unlabelAll_keys chosen 0 1 args)]
  | array type => simp [Unaffected, unlabel, compile, components]
  | readonly type | paren type => simp [Unaffected, unlabel, compile, components]
  | union members =>
    rw [components, ← unionWith_unlabel (members.any isNull) (members.any isUndefined), Unaffected,
      unlabel, compile, compile, any_unlabel isNull_unlabel, any_unlabel isUndefined_unlabel]
  | inter members =>
    rw [components, ← compileAll_unlabel, Unaffected, unlabel, compile, compile,
      intersectionOf_inj (length_compileAll_unlabel members)]
  | object members =>
    rw [components, List.forall_mem_append, ← compileFields_unlabel, ← compileIndex_unlabel,
      Unaffected, unlabel, compile, compile, objectOf_inj (isEmpty_compileFields_unlabel members)
        (isSome_compileIndex_unlabel members)]
  | function signature =>
    cases signature with
    | mk typeParameters parameters result =>
      rw [components, List.forall_mem_append, ← compileParameters_unlabel, Unaffected, unlabel,
        unlabelSignature, compile, compile, compileSignature, compileSignature]
      simp only [Expr.call.injEq, List.cons.injEq, true_and, and_true, compileOr_unlabel]
      cases result <;> simp
  | lookup object index =>
    rw [components, Unaffected, unlabel, compile, compile, literalKeys_unlabel]
    cases literalKeys index with
    | nil => simp
    | cons key others => cases others <;> simp [Unaffected]
  | keyword | null | undefined | boolLiteral | stringLiteral | numberLiteral | ref | template
  | other => simp [Unaffected, unlabel, components]

/-- Labels carry no meaning in a type if none of its own is on a rest element and those in its
components carry none, and only then. -/
theorem unaffected_iff_components (chosen : List Nat → Bool) (t : TypeExpr) :
    Unaffected ctx chosen t ↔
      (∀ elements, t = .tuple elements → chosen [] = true →
        ∀ e ∈ elements, isLabelledRest e = false) ∧
      ∀ c ∈ components t, Unaffected ctx (under chosen c.1) c.2 := by
  cases t with
  | tuple elements =>
    rw [tuple_unlabel]
    simp
  | _ =>
    rw [unaffected_iff_of_ne_tuple (by simp)]
    simp

/-- The labels of chosen tuples carry no meaning exactly if none of those tuples that counts in the
type has a rest element with a label. -/
theorem unlabel_compiles_alike_iff (ctx : Context) (chosen : List Nat → Bool) (t : TypeExpr) :
    compile ctx (unlabel chosen t) = compile ctx t ↔
      ∀ place elements, Within t place (.tuple elements) → chosen place = true →
        ∀ e ∈ elements, isLabelledRest e = false := by
  have within_iff (chosen : List Nat → Bool) : Unaffected ctx chosen t ↔ ∀ place u, Within t place u →
      ∀ elements, u = .tuple elements → chosen place = true →
        ∀ e ∈ elements, isLabelledRest e = false := by
    induction t using components_induction generalizing chosen with
    | node t ih =>
      rw [unaffected_iff_components, forall_within_iff]
      refine and_congr_right fun _ => forall₂_congr fun c below => ?_
      exact ih c below (under chosen c.1)
  refine (within_iff chosen).trans ⟨?_, ?_⟩
  · intro all place elements inside
    exact all place _ inside elements rfl
  · rintro all place _ inside elements rfl
    exact all place elements inside

def tupleOf? : Body → Option (List Bool)
  | .alias (.tuple elements) => some (elements.map isLabelledRest)
  | _ => none

theorem tupleOf?_eq_some {body : Body} {rests : List Bool} (found : tupleOf? body = some rests) :
    ∃ elements, body = .alias (.tuple elements) ∧ elements.map isLabelledRest = rests := by
  unfold tupleOf? at found
  split at found
  · exact ⟨_, rfl, Option.some.inj found⟩
  · contradiction

/-- A tuple whose elements have labels, the last one a rest element. -/
def argsSource : String := "type Args = [first: string, ...others: number[]];\n"

/-- Without its labels the tuple has another validator. -/
theorem not_unlabel_compiles_alike_args : ∃ d t, Source.parse false argsSource = .ok [d] ∧
    d.body = .alias t ∧ ∀ ctx, compile ctx (unlabel (fun _ => true) t) ≠ compile ctx t := by
  have evaluated : (Source.parse false argsSource).map (fun ds => ds.map fun d =>
      tupleOf? d.body) = .ok [some [false, true]] := by
    decide +kernel
  obtain ⟨d, parsed, shown⟩ := declaration_of_map evaluated
  obtain ⟨elements, body, rests⟩ := tupleOf?_eq_some shown
  refine ⟨d, .tuple elements, parsed, body, fun ctx same => ?_⟩
  have labelled : true ∈ elements.map isLabelledRest := by
    rw [rests]
    decide
  obtain ⟨element, member, rest⟩ := List.mem_map.mp labelled
  have free := ((tuple_unlabel elements).mp same).1 rfl element member
  exact Bool.noConfusion (rest.symm.trans free)

end Schemata.Compilation
