import Schemata.Proofs.Compilation.Components
import Schemata.Proofs.Compilation.Documentation
import Schemata.Proofs.Expr.Selection

/-! The plain selections from validators as they are put together. Each builder has the selected
nodes of its parts, and comments add none: tags chain calls whose arguments are literals. -/
namespace Schemata.Compilation

open TypeScript DocComment
open Schemata.Expr (Plain declarationMethods objectMethods)

variable {p : Expr → Bool} (plain : Plain p) {ctx : Context} {e : Expr} {es : List Expr}

include plain

theorem selected_schema {method : String} (usual : declarationMethods.contains method = false) :
    (Expr.schema method).selected p = [] :=
  plain.selected_zod usual []

theorem selected_anything : Expr.anything.selected p = [] := selected_schema plain (by decide)

theorem selected_keyword (k : Keyword) : (keyword k).selected p = [] := by
  cases k with
  | object =>
    rw [keyword, plain.selected_zod (by decide), List.flatMap_singleton]
    exact selected_anything plain
  | _ => exact selected_schema plain (by decide)

theorem selected_stringValue (literal : String) : (stringValue literal).selected p = [] := by
  unfold stringValue
  split
  · exact plain.selected_str _
  · exact plain.selected_raw _

theorem selected_mask (keys : List String) : (mask keys).selected p = [] := by
  rw [mask, plain.selected_object, List.flatMap_map]
  exact List.flatMap_eq_nil_iff.mpr fun _ _ => plain.selected_bool true

theorem selected_callIf (condition : Bool) {method : String}
    (usual : objectMethods.contains method = false) :
    (callIf condition method e).selected p = e.selected p := by
  cases condition with
  | false => rfl
  | true =>
    simp only [callIf, if_true, plain.selected_call usual, List.flatMap_nil, List.append_nil]

theorem selected_unionOf (es : List Expr) :
    (unionOf es).selected p = es.flatMap (Expr.selected p) := by
  unfold unionOf
  split
  · rw [List.flatMap_singleton]
  · rw [plain.selected_zod (by decide), List.flatMap_singleton, plain.selected_array]

theorem selected_foldl_and (others : List Expr) :
    (others.foldl (fun acc next => Expr.call acc "and" [next]) e).selected p =
      e.selected p ++ others.flatMap (Expr.selected p) := by
  induction others generalizing e with
  | nil => simp
  | cons next rest ih =>
    rw [List.foldl_cons, ih, plain.selected_call (by decide)]
    simp

theorem selected_intersectionOf (es : List Expr) :
    (intersectionOf es).selected p = es.flatMap (Expr.selected p) := by
  cases es with
  | nil => exact selected_anything plain
  | cons e rest => rw [intersectionOf, selected_foldl_and plain, List.flatMap_cons]

theorem selected_objectOf (fields : List (String × Expr)) (index : Option Expr) :
    (objectOf fields index).selected p =
      fields.flatMap (fun field => field.2.selected p) ++
        index.toList.flatMap (Expr.selected p) := by
  have object : (Expr.zod "object" [.object fields]).selected p =
      fields.flatMap fun field => field.2.selected p := by
    rw [plain.selected_zod (by decide), List.flatMap_singleton, plain.selected_object]
  cases index with
  | none => simp [objectOf, object]
  | some value =>
    cases fields with
    | nil =>
      have record : declarationMethods.contains "record" = false := by decide
      simp [objectOf, plain.selected_zod record]
    | cons field rest =>
      have catchall : objectMethods.contains "catchall" = false := by decide
      simp [objectOf, object, plain.selected_call catchall]

theorem selected_unionWith {all concrete : List Expr} (hasNull hasUndefined : Bool)
    (same : all.flatMap (Expr.selected p) = concrete.flatMap (Expr.selected p)) :
    (unionWith hasNull hasUndefined concrete all).selected p = all.flatMap (Expr.selected p) := by
  unfold unionWith
  split
  · exact selected_unionOf plain all
  · rw [selected_callIf plain _ (by decide), selected_callIf plain _ (by decide),
      selected_unionOf plain, same]

theorem compileConcrete_selected (ctx : Context) (ts : List TypeExpr) :
    (compileAll ctx ts).flatMap (Expr.selected p) =
      (compileConcrete ctx ts).flatMap (Expr.selected p) := by
  induction ts with
  | nil => rfl
  | cons t rest ih =>
    rw [compileAll, compileConcrete, List.flatMap_cons, ih]
    cases t with
    | null | undefined => exact congrArg (· ++ _) (selected_schema plain (by decide))
    | _ => rfl

/-! ## Tags -/

theorem selected_literal (literal : Literal e) : e.selected p = [] := by
  cases literal with
  | str value => exact plain.selected_str value
  | number text => exact plain.selected_number text
  | raw text => exact plain.selected_raw text

theorem selected_chain {calls : List Addition}
    (refining : ∀ a ∈ calls, a.method ∈ refinementMethods ∧ ∀ e ∈ a.args, Literal e) :
    (chain e calls).selected p = e.selected p := by
  induction calls generalizing e with
  | nil => rfl
  | cons a rest ih =>
    obtain ⟨⟨refines, literals⟩, others⟩ := List.forall_mem_cons.mp refining
    have usual : ∀ method ∈ refinementMethods, objectMethods.contains method = false := by decide
    have args : a.args.flatMap (Expr.selected p) = [] :=
      List.flatMap_eq_nil_iff.mpr fun arg member => selected_literal plain (literals arg member)
    rw [chain_cons, ih others, Addition.onto, plain.selected_call (usual _ refines), args,
      List.append_nil]

/-- Whatever a comment says, the same is selected. -/
theorem selected_field (ctx : Context) (isOptional : Bool) (doc : Option String) (e : Expr) :
    (field ctx isOptional doc e).selected p = e.selected p := by
  have marked : (callIf isOptional "optional"
      (chain e (additions (appliedTags ctx doc)))).selected p = e.selected p := by
    rw [selected_callIf plain isOptional (by decide),
      selected_chain plain fun _ => refines_of_mem_additions]
  rw [field_eq]
  cases last : lastDefault (appliedTags ctx doc) with
  | none => exact marked
  | some value =>
    rw [Refined.applyDefault, plain.selected_call (by decide), marked, List.flatMap_singleton,
      selected_literal plain (literal_of_lastDefault last), List.append_nil]

/-! ## Types -/

omit plain in
theorem selected_compileOr {default : Expr} (passed : default.selected p = [])
    (type : Option TypeExpr) : (compileOr ctx default type).selected p =
      type.toList.flatMap fun t => (compile ctx t).selected p := by
  cases type with
  | none => exact passed
  | some type => rw [compileOr, Option.toList_some, List.flatMap_singleton]

theorem compileItems_selected (es : List TupleElement) :
    (compileItems ctx es).flatMap (Expr.selected p) =
      (es.filterMap itemType?).flatMap fun t => (compile ctx t).selected p := by
  induction es with
  | nil => rfl
  | cons element rest ih =>
    cases element with
    | required label type =>
      have shown : itemType? (.required label type) = some type := rfl
      rw [compileItems, List.filterMap_cons_some shown, List.flatMap_cons, List.flatMap_cons, ih]
    | optional label type =>
      have shown : itemType? (.optional label type) = some type := rfl
      rw [compileItems, List.filterMap_cons_some shown, List.flatMap_cons, List.flatMap_cons, ih,
        plain.selected_call (by decide), List.flatMap_nil, List.append_nil]
    | rest label type =>
      cases label with
      | none => exact ih
      | some label =>
        have shown : itemType? (.rest (some label) type) = some type := rfl
        rw [compileItems, List.filterMap_cons_some shown, List.flatMap_cons, List.flatMap_cons, ih]

theorem selected_restElement (t : TypeExpr) :
    (compile ctx (restElement t)).selected p = (compile ctx t).selected p := by
  cases t with
  | array element =>
    rw [compile, plain.selected_zod (by decide), List.flatMap_singleton]
    rfl
  | _ => rfl

theorem compileFields_selected (ms : List Member) :
    (compileFields ctx ms).flatMap (fun field => field.2.selected p) =
      (ms.filterMap fieldType?).flatMap fun t => (compile ctx t).selected p := by
  induction ms with
  | nil => rfl
  | cons member rest ih =>
    cases member with
    | property key isOptional type doc =>
      rw [compileFields, List.filterMap_cons, fieldType?]
      cases key.name? with
      | none => exact ih
      | some name =>
        simp only [List.flatMap_cons, ih, selected_field plain,
          selected_compileOr (selected_anything plain), Option.isSome_some, if_true]
        cases type with
        | none => rfl
        | some type => rw [Option.toList_some, List.flatMap_singleton, List.flatMap_cons]
    | method key isOptional signature =>
      rw [compileFields, List.filterMap_cons, fieldType?]
      cases key.name? with
      | none => exact ih
      | some name =>
        simp only [List.flatMap_cons, ih, Option.isSome_some, if_true, compile]
        rw [selected_callIf plain _ (by decide)]
    | index | mapped => exact ih

theorem compileParameters_selected (ps : List Parameter) :
    (compileParameters ctx ps).flatMap (Expr.selected p) =
      (ps.filterMap parameterType?).flatMap fun t => (compile ctx t).selected p := by
  induction ps with
  | nil => rfl
  | cons parameter rest ih =>
    cases parameter with
    | mk isOptional type =>
      rw [compileParameters, List.flatMap_cons, selected_callIf plain _ (by decide),
        selected_compileOr (selected_anything plain), ih, List.filterMap_cons, parameterType?]
      cases type with
      | none => rfl
      | some type => rw [Option.toList_some, List.flatMap_singleton, List.flatMap_cons]

omit plain in
/-- What the validator of a type has itself of references, lookups and uses of object schemas. -/
def ownNodes (ctx : Context) : TypeExpr → List Expr
  | .ref name => [reference ctx name]
  | .apply name args =>
    if name ∈ transparentNames then [] else [compile ctx (.apply name args)]
  | .lookup object index =>
    match literalKeys index with
    | [key] => [.member (.member (compile ctx object) "shape") key,
        .member (compile ctx object) "shape"]
    | _ => []
  | _ => []

theorem reference_children (ctx : Context) (name : String) :
    (reference ctx name).children.flatMap (Expr.selected p) = [] := by
  have listed : [Expr.anything].flatMap (Expr.selected p) = [] :=
    (List.flatMap_singleton _ _).trans (selected_anything plain)
  unfold reference
  split
  · rfl
  · split
    case h_5 | h_6 => exact listed
    all_goals rfl

theorem selected_reference (ctx : Context) (name : String) :
    (reference ctx name).selected p = [reference ctx name].filter p := by
  rw [Expr.selected_eq, reference_children plain, List.append_nil]

theorem getD_selected (es : List Expr) :
    (es.getD 0 .anything).selected p = (es.take 1).flatMap (Expr.selected p) := by
  cases es with
  | nil => exact selected_anything plain
  | cons e rest => simp

theorem application_children {name : String} (kept : name ∉ transparentNames) (ctx : Context)
    (args : List TypeExpr) (es : List Expr) :
    (application ctx name args es).children.flatMap (Expr.selected p) =
      (es.take ((argumentsUsed name).getD 0)).flatMap (Expr.selected p) := by
  have first := getD_selected plain es
  have both : (es.getD 0 .anything).selected p ++ (es.getD 1 .anything).selected p =
      (es.take 2).flatMap (Expr.selected p) := by
    match es with
    | [] => simp [selected_anything plain]
    | [e] => simp [selected_anything plain]
    | e :: other :: rest => simp
  unfold application
  split
  case h_5 | h_6 => simpa [Expr.children, argumentsUsed] using both
  case h_9 | h_10 => exact absurd (by decide) kept
  case h_11 | h_12 => simpa [Expr.children, argumentsUsed, selected_mask plain] using first
  case h_13 =>
    have unused : argumentsUsed name = none := by
      unfold argumentsUsed
      split <;> first | contradiction | rfl
    rw [reference_children plain, unused]
    rfl
  all_goals simpa [Expr.children, argumentsUsed] using first

theorem selected_apply (ctx : Context) (name : String) (args : List TypeExpr) :
    (compile ctx (.apply name args)).selected p = (ownNodes ctx (.apply name args)).filter p ++
      ((compileAll ctx args).take ((argumentsUsed name).getD 0)).flatMap (Expr.selected p) := by
  rw [ownNodes]
  split
  · rename_i transparent
    have first : compile ctx (.apply name args) = (compileAll ctx args).getD 0 .anything := by
      rcases List.mem_pair.mp transparent with rfl | rfl
      · rfl
      · rfl
    have one : (argumentsUsed name).getD 0 = 1 := by
      rcases List.mem_pair.mp transparent with rfl | rfl
      · rfl
      · rfl
    rw [first, one, getD_selected plain, List.filter_nil, List.nil_append]
  · rename_i kept
    rw [Expr.selected_eq, compile, application_children plain kept]

/-- From a validator is selected what is selected from its own nodes and from its components. -/
theorem selected_compile (ctx : Context) (t : TypeExpr) :
    (compile ctx t).selected p = (ownNodes ctx t).filter p ++
      (components t).flatMap fun c => (compile ctx c.2).selected p := by
  cases t with
  | keyword k => exact selected_keyword plain k
  | null | undefined | template => exact selected_schema plain (by decide)
  | other => exact selected_anything plain
  | boolLiteral value =>
    rw [compile, plain.selected_zod (by decide), List.flatMap_singleton, plain.selected_bool]
    rfl
  | stringLiteral literal =>
    rw [compile, plain.selected_zod (by decide), List.flatMap_singleton,
      selected_stringValue plain]
    rfl
  | numberLiteral text =>
    rw [compile, plain.selected_zod (by decide), List.flatMap_singleton, plain.selected_number]
    rfl
  | ref name =>
    rw [compile, selected_reference plain, components, List.flatMap_nil, List.append_nil]
    rfl
  | apply name args =>
    rw [selected_apply plain, compileAll_eq, ← List.map_take, components, ← take_indexed_types 0,
      List.map_map, List.flatMap_map]
    rfl
  | array type =>
    rw [compile, plain.selected_zod (by decide), components, List.flatMap_singleton]
    exact (List.flatMap_singleton _ _).symm
  | readonly type | paren type => exact (List.flatMap_singleton _ _).symm
  | tuple elements =>
    have items : (Expr.zod "tuple" [.array (compileItems ctx elements)]).selected p =
        (indexed itemType? 0 elements).flatMap fun c => (compile ctx c.2).selected p := by
      rw [plain.selected_zod (by decide), List.flatMap_singleton, plain.selected_array,
        compileItems_selected plain,
        flatMap_indexed fun t => (compile ctx t).selected p]
    have rest := compileRest_eq ctx elements
    rw [compile, components, List.flatMap_append, ← items,
      flatMap_getLast_indexed fun t => (compile ctx t).selected p, rest]
    cases (elements.filterMap openRestType?).getLast? with
    | none => simp [ownNodes]
    | some type =>
      have usual : objectMethods.contains "rest" = false := by decide
      simp [ownNodes, plain.selected_call usual, selected_restElement plain]
  | union members =>
    rw [compile, selected_unionWith plain _ _ (compileConcrete_selected plain ctx members),
      compileAll_eq, List.flatMap_map, components, flatMap_indexed fun t => (compile ctx t).selected p,
      List.filterMap_some]
    rfl
  | inter members =>
    rw [compile, selected_intersectionOf plain, compileAll_eq, List.flatMap_map, components,
      flatMap_indexed fun t => (compile ctx t).selected p, List.filterMap_some]
    rfl
  | object members =>
    rw [compile, selected_objectOf plain, compileFields_selected plain, compileIndex_eq, components,
      List.flatMap_append, flatMap_indexed fun t => (compile ctx t).selected p,
      flatMap_getLast_indexed fun t => (compile ctx t).selected p]
    cases (members.filterMap indexType?).getLast? <;> simp [ownNodes]
  | function signature =>
    cases signature with
    | mk typeParameters parameters result =>
      have function : (Expr.schema "function").selected p = [] :=
        selected_schema plain (by decide)
      have void : (Expr.schema "void").selected p = [] := selected_schema plain (by decide)
      rw [compile, compileSignature, plain.selected_call (by decide),
        plain.selected_call (by decide), function, compileParameters_selected plain,
        List.flatMap_singleton, selected_compileOr void, components, List.flatMap_append,
        flatMap_indexed fun t => (compile ctx t).selected p]
      cases result <;> simp [ownNodes]
  | lookup object index =>
    rw [compile, ownNodes, components]
    cases literalKeys index with
    | nil => exact selected_anything plain
    | cons key others =>
      cases others with
      | nil =>
        have inner : (Expr.member (compile ctx object) "shape").selected p =
            [Expr.member (compile ctx object) "shape"].filter p ++ (compile ctx object).selected p := by
          rw [Expr.selected_eq, Expr.children, List.flatMap_singleton]
        rw [Expr.selected_eq, Expr.children, List.flatMap_singleton, inner, ← List.append_assoc,
          ← List.filter_append, List.length_singleton, if_pos rfl, List.flatMap_singleton]
        rfl
      | cons => exact selected_anything plain

/-- Nothing is selected from a validator exactly if its types have no such nodes of their own. -/
theorem selected_compile_eq_nil_iff {t : TypeExpr} : (compile ctx t).selected p = [] ↔
    ∀ place u, Within t place u → (ownNodes ctx u).filter p = [] := by
  induction t using components_induction with
  | node t ih =>
    rw [selected_compile plain, List.append_eq_nil_iff, List.flatMap_eq_nil_iff, forall_within_iff]
    refine and_congr_right fun _ => forall₂_congr fun c below => ?_
    exact ih c below

end Schemata.Compilation
