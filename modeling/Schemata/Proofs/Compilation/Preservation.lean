import Schemata.Proofs.Compilation.References
import Schemata.Proofs.Semantics.Validator

/-! The validator of a structural type accepts exactly the values of the type. Unions are where the
two are built differently: `null` and `undefined` leave the list of members and come back as what
the rest is wrapped in. -/
namespace Schemata.Compilation

open TypeScript DocComment Semantics

variable {ctx : Context} {env : Environment} {e : Expr} {es : List Expr} {t : TypeExpr}
  {ts : List TypeExpr} {v : Value}

theorem compileConcrete_eq (ts : List TypeExpr) :
    compileConcrete ctx ts = (ts.filter fun t => !isNullish t).map (compile ctx) := by
  induction ts with
  | nil => rfl
  | cons t rest ih =>
    rw [compileConcrete, List.filter_cons, ih]
    cases isNullish t with
    | true => rfl
    | false => rfl

theorem isNull_iff : isNull t = true ↔ t = .null := by
  cases t <;> simp [isNull]

theorem isUndefined_iff : isUndefined t = true ↔ t = .undefined := by
  cases t <;> simp [isUndefined]

/-! ## Unions and intersections -/

theorem accepts_unionOf : Accepts env (unionOf es) v ↔ ∃ e ∈ es, Accepts env e v := by
  unfold unionOf
  split
  · simp only [List.mem_singleton, exists_eq_left]
  · exact accepts_union

theorem accepts_foldl_and (others : List Expr) :
    Accepts env (others.foldl (fun acc next => .call acc "and" [next]) e) v ↔
      Accepts env e v ∧ ∀ other ∈ others, Accepts env other v := by
  induction others generalizing e with
  | nil => simp only [List.foldl_nil, List.not_mem_nil, false_implies, implies_true, and_true]
  | cons next rest ih =>
    rw [List.foldl_cons, ih, accepts_and, List.forall_mem_cons, and_assoc]

theorem accepts_intersectionOf :
    Accepts env (intersectionOf es) v ↔ ∀ e ∈ es, Accepts env e v := by
  cases es with
  | nil =>
    have everything : Accepts env .anything v := trivial
    simp only [intersectionOf, everything, List.not_mem_nil, false_implies, implies_true]
  | cons e rest =>
    rw [intersectionOf, accepts_foldl_and, List.forall_mem_cons]

theorem accepts_nullableIf {condition : Bool} :
    Accepts env (callIf condition "nullable" e) v ↔
      Accepts env e v ∨ (condition = true ∧ v = .null) := by
  cases condition with
  | false => simp only [callIf, Bool.false_eq_true, if_false, false_and, or_false]
  | true => simp only [callIf, if_true, accepts_nullable, true_and]

theorem accepts_optionalIf {condition : Bool} :
    Accepts env (callIf condition "optional" e) v ↔
      Accepts env e v ∨ (condition = true ∧ v = .undefined) := by
  cases condition with
  | false => simp only [callIf, Bool.false_eq_true, if_false, false_and, or_false]
  | true => simp only [callIf, if_true, accepts_optional, true_and]

/-- A union accepts what one of its members does, whichever of them are set apart. -/
theorem accepts_compile_union :
    Accepts env (compile ctx (.union ts)) v ↔ ∃ t ∈ ts, Accepts env (compile ctx t) v := by
  rw [compile, unionWith]
  split
  · rw [accepts_unionOf, compileAll_eq]
    simp only [List.mem_map, exists_exists_and_eq_and]
  · rw [accepts_optionalIf, accepts_nullableIf, accepts_unionOf, compileConcrete_eq]
    constructor
    · rintro ((⟨e, member, accepted⟩ | ⟨some, rfl⟩) | ⟨some, rfl⟩)
      · obtain ⟨t, concrete, rfl⟩ := List.mem_map.mp member
        exact ⟨t, (List.mem_filter.mp concrete).1, accepted⟩
      · obtain ⟨t, member, null⟩ := List.any_eq_true.mp some
        obtain rfl := isNull_iff.mp null
        exact ⟨_, member, rfl⟩
      · obtain ⟨t, member, undefined⟩ := List.any_eq_true.mp some
        obtain rfl := isUndefined_iff.mp undefined
        exact ⟨_, member, rfl⟩
    · rintro ⟨t, member, accepted⟩
      by_cases null : isNull t = true
      · obtain rfl := isNull_iff.mp null
        exact .inl (.inr ⟨List.any_eq_true.mpr ⟨_, member, rfl⟩, accepted⟩)
      · by_cases undefined : isUndefined t = true
        · obtain rfl := isUndefined_iff.mp undefined
          exact .inr ⟨List.any_eq_true.mpr ⟨_, member, rfl⟩, accepted⟩
        · have concrete : (!isNullish t) = true := by
            simp only [isNullish, null, undefined, Bool.or_self, Bool.not_false]
          exact .inl (.inl ⟨compile ctx t,
            List.mem_map_of_mem (List.mem_filter.mpr ⟨member, concrete⟩), accepted⟩)

theorem accepts_compile_inter :
    Accepts env (compile ctx (.inter ts)) v ↔ ∀ t ∈ ts, Accepts env (compile ctx t) v := by
  rw [compile, accepts_intersectionOf, compileAll_eq, List.forall_mem_map]

/-! ## Names, literals and fields -/

/-- The validators of the names in scope accept what these names hold. -/
def Agrees (env : Environment) (ctx : Context) (scope : List String)
    (types : String → Value → Prop) : Prop :=
  ∀ name ∈ scope, env.validators (ctx.validatorName name) = types name

variable {scope : List String} {types : String → Value → Prop}

theorem accepts_keyword {k : Keyword} (structural : structuralKeywords.contains k = true) :
    Accepts env (keyword k) = keywordHolds k := by
  cases k with
  | object => contradiction
  | uniqueSymbol => contradiction
  | void => contradiction
  | _ => rfl

theorem accepts_reference {name : String} (structural : isStructuralName ctx scope name = true)
    (agree : Agrees env ctx scope types) :
    Accepts env (reference ctx name) = nameHolds types ctx.parameters name := by
  funext v
  by_cases parameter : name ∈ ctx.parameters
  · unfold reference nameHolds
    rw [if_pos parameter, if_pos parameter]
    rfl
  · rw [nameHolds, if_neg parameter]
    rcases (isStructuralName_iff ctx scope).mp structural with
      bound | rfl | rfl | ⟨known, free⟩
    · contradiction
    · unfold reference
      rw [if_neg parameter]
      rfl
    · unfold reference
      rw [if_neg parameter]
      rfl
    · have bigint : name ≠ "bigint" := fun same => free (same ▸ by decide)
      have undefined : name ≠ "undefined" := fun same => free (same ▸ by decide)
      rw [reference_eq_ident parameter free, if_neg bigint, if_neg undefined, ← agree name known]
      rfl

theorem accepts_stringValue {literal : String} :
    Accepts env (.zod "literal" [stringValue literal]) v ↔ v = env.literals.value literal := by
  unfold stringValue
  cases unquoted : unquote? literal with
  | some text =>
    rw [env.literals.quoted literal text unquoted]
    rfl
  | none => rfl

/-- A comment without refining tags leaves a field as it is. -/
theorem field_plain {isOptional : Bool} {doc : Option String}
    (plain : isPlainDoc ctx.ignoreTags doc = true) :
    field ctx isOptional doc e = callIf isOptional "optional" e := by
  have silent : ∀ tag ∈ appliedTags ctx doc, Refinement.ofTag? tag = none := by
    unfold appliedTags
    cases ignored : ctx.ignoreTags with
    | true => exact List.forall_mem_nil _
    | false =>
      cases doc with
      | none => exact List.forall_mem_nil _
      | some comment => simpa [isPlainDoc, ignored] using plain
  have calls : additions (appliedTags ctx doc) = [] :=
    List.filterMap_eq_nil_iff.mpr fun tag member => by rw [addition?, silent tag member]
  have defaults : (appliedTags ctx doc).filterMap default? = [] :=
    List.filterMap_eq_nil_iff.mpr fun tag member => by rw [default?, silent tag member]
  rw [field_eq, calls, lastDefault, defaults]
  rfl

theorem accepts_field {isOptional : Bool} {doc : Option String}
    (plain : isPlainDoc ctx.ignoreTags doc = true) :
    Accepts env (field ctx isOptional doc e) =
      fun v => (isOptional = true ∧ v = .undefined) ∨ Accepts env e v := by
  funext v
  rw [field_plain plain, propext accepts_optionalIf, or_comm]

theorem compile_apply {name : String} {element : TypeExpr} (list : name ∈ listNames) :
    compile ctx (.apply name [element]) = .zod "array" [compile ctx element] := by
  rcases List.mem_pair.mp list with rfl | rfl
  · rfl
  · rfl

/-! ## Whole types -/

mutual

theorem compile_holds (agree : Agrees env ctx scope types) :
    ∀ t : TypeExpr, isStructural ctx scope t = true →
    Accepts env (compile ctx t) = Holds env.literals types ctx.parameters t
  | .keyword k, structural => accepts_keyword structural
  | .null, _ => rfl
  | .undefined, _ => rfl
  | .boolLiteral _, _ => rfl
  | .stringLiteral literal, _ => by
    funext v
    exact propext accepts_stringValue
  | .numberLiteral _, _ => rfl
  | .ref name, structural => accepts_reference structural agree
  | .apply name [element], structural => by
    funext v
    rw [isStructural, Bool.and_eq_true, List.contains_eq_mem, decide_eq_true_eq] at structural
    rw [compile_apply structural.1, Holds, arrayHolds, ← compile_holds agree element structural.2]
    exact propext accepts_array
  | .array element, structural => by
    funext v
    rw [compile, Holds, arrayHolds, ← compile_holds agree element structural]
    exact propext accepts_array
  | .readonly type, structural => compile_holds agree type structural
  | .paren type, structural => compile_holds agree type structural
  | .tuple elements, structural => by
    funext v
    obtain ⟨items, rest⟩ := compileItems_holds agree elements structural
    rw [compile, rest, Holds, ← items, propext accepts_tuple]
    simp only [List.forall₂_map_left_iff]
  | .union members, structural => by
    funext v
    rw [propext accepts_compile_union, Holds, compileAll_holds agree members structural]
    simp only [List.mem_map, exists_exists_and_eq_and]
  | .inter members, structural => by
    funext v
    rw [propext accepts_compile_inter, Holds, compileAll_holds agree members structural]
    simp only [List.forall_mem_map]
  | .object members, structural => by
    funext v
    rw [isStructural, Bool.and_eq_true, decide_eq_true_eq] at structural
    obtain ⟨fields, index⟩ := compileFields_holds agree members structural.1
    have names := propertyHolds_names env.literals types ctx.parameters members
    rw [← fields, List.map_map] at names
    have distinct : ((compileFields ctx members).map (·.1)).Nodup := names ▸ structural.2
    rw [compile, index, objectOf, Holds, ← fields, propext (accepts_object distinct)]
    simp only [List.forall_mem_map]

theorem compileAll_holds (agree : Agrees env ctx scope types) :
    ∀ ts : List TypeExpr, areStructural ctx scope ts = true →
    holdsEach env.literals types ctx.parameters ts = ts.map fun t => Accepts env (compile ctx t)
  | [], _ => rfl
  | t :: ts, structural => by
    rw [areStructural, Bool.and_eq_true] at structural
    rw [holdsEach, List.map_cons, compile_holds agree t structural.1,
      compileAll_holds agree ts structural.2]

theorem compileItems_holds (agree : Agrees env ctx scope types) :
    ∀ es : List TupleElement, areRequired ctx scope es = true →
    (compileItems ctx es).map (Accepts env) = elementHolds env.literals types ctx.parameters es ∧
      compileRest ctx es = none
  | [], _ => ⟨rfl, rfl⟩
  | .required none type :: es, structural => by
    rw [areRequired, Bool.and_eq_true] at structural
    obtain ⟨items, rest⟩ := compileItems_holds agree es structural.2
    refine ⟨?_, rest⟩
    rw [compileItems, List.map_cons, elementHolds, items, compile_holds agree type structural.1]

theorem compileFields_holds (agree : Agrees env ctx scope types) :
    ∀ ms : List Member, areProperties ctx scope ms = true →
    ((compileFields ctx ms).map fun field => (field.1, Accepts env field.2)) =
        propertyHolds env.literals types ctx.parameters ms ∧
      compileIndex ctx ms = none
  | [], _ => ⟨rfl, rfl⟩
  | .property key isOptional type doc :: ms, structural => by
    simp only [areProperties, Bool.and_eq_true] at structural
    obtain ⟨⟨⟨named, plain⟩, typed⟩, others⟩ := structural
    obtain ⟨name, named⟩ := Option.isSome_iff_exists.mp named
    obtain ⟨fields, index⟩ := compileFields_holds agree ms others
    refine ⟨?_, index⟩
    rw [compileFields, propertyHolds, name?_of_propertyName? named, named]
    simp only [List.map_cons, fields, accepts_field plain, compileOr_holds agree type typed]

theorem compileOr_holds (agree : Agrees env ctx scope types) :
    ∀ type : Option TypeExpr, isStructuralOr ctx scope type = true →
    Accepts env (compileOr ctx .anything type) =
      typeHolds env.literals types ctx.parameters type
  | some type, structural => compile_holds agree type structural
  | none, _ => rfl

end

/-- A value passes the validator of a structural type exactly if it is of the type, whatever the
other types in scope are. -/
theorem compile_preserves_meaning (agree : Agrees env ctx scope types)
    (structural : isStructural ctx scope t = true) (v : Value) :
    Accepts env (compile ctx t) v ↔ Holds env.literals types ctx.parameters t v :=
  iff_of_eq (congrFun (compile_holds agree t structural) v)

/-- Reads string literals and decimal digits. -/
def digitLiterals : Literals where
  value literal :=
    match unquote? literal with
    | some text => .string text
    | none => .number (.ofNat (literal.toList.foldl (fun n c => 10 * n + (c.toNat - 48)) 0))
  quoted literal text unquoted := by rw [unquoted]

/-- Nested unions with `null` and `undefined` at several places, among objects, lists and names. -/
def profile : TypeExpr :=
  .object [
    .property (.plain "id") false (some (.union [.ref "Key", .stringLiteral "'none'", .null])) none,
    .property (.quoted "\"e-mail\"") true (some (.keyword .string)) none,
    .property (.plain "tags") false (some (.union [.undefined,
      .readonly (.array (.paren (.union [.null, .undefined])))])) none,
    .property (.plain "pair") false (some (.tuple [.required none (.numberLiteral "7"),
      .required none (.inter [.keyword .unknown, .boolLiteral true])])) none]

/-- A value of the type if the identity is a key, `null` or `none`. -/
def profileValue (id : Value) : Value :=
  .object [("id", id), ("pair", .array [.number (.ofNat 7), .boolean true])]

theorem profile_preserves_meaning :
    let ctx : Context := ⟨(· ++ "Schema"), [], false⟩
    let env : Environment := ⟨digitLiterals, fun name v => name = "KeySchema" ∧ v.kind = .bigint⟩
    let types := fun name v => name = "Key" ∧ v.kind = Kind.bigint
    Agrees env ctx ["Key"] types ∧ isStructural ctx ["Key"] profile = true ∧
      Accepts env (compile ctx profile) (profileValue (.string "none")) ∧
      ¬ Accepts env (compile ctx profile) (profileValue (.string "other")) := by
  intro ctx env types
  have agree : Agrees env ctx ["Key"] types := by
    intro name member
    obtain rfl := List.mem_singleton.mp member
    have renamed : ctx.validatorName "Key" = "KeySchema" := by decide
    simp only [env, types, renamed]
  have structural : isStructural ctx ["Key"] profile = true := by decide +kernel
  have none : digitLiterals.value "'none'" = .string "none" :=
    digitLiterals.quoted _ _ (by decide +kernel)
  have seven : digitLiterals.value "7" = .number (.ofNat 7) := by
    have unquoted : unquote? "7" = .none := by decide +kernel
    simp [digitLiterals, unquoted]
  have keys : propertyName? (.plain "id") = some "id" ∧
      propertyName? (.quoted "\"e-mail\"") = some "e-mail" ∧
      propertyName? (.plain "tags") = some "tags" ∧
      propertyName? (.plain "pair") = some "pair" := by decide +kernel
  have preserved (id : Value) : Accepts env (compile ctx profile) (profileValue id) ↔
      (nameHolds types [] "Key" id ∨ id = .string "none" ∨ id = .null) := by
    rw [compile_preserves_meaning agree structural]
    simp [profile, profileValue, Holds, propertyHolds, keys, typeHolds, holdsEach, elementHolds,
      Value.read, List.lookup_cons, none, seven, env, ctx, keywordHolds]
  refine ⟨agree, structural, (preserved _).mpr (.inr (.inl rfl)), fun accepted => ?_⟩
  rcases (preserved _).mp accepted with key | other | null
  · have kind : Value.kind (.string "other") = .bigint := key.2
    contradiction
  · have texts : "other" = "none" := Value.string.inj other
    contradiction
  · contradiction

end Schemata.Compilation
