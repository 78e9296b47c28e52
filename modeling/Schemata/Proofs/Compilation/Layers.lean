import Schemata.Proofs.Compilation.Documentation
import Schemata.Proofs.Compilation.Scope
import Schemata.Proofs.Compilation.Wrapping

/-! The layers of compiled validators. What the tags of a property add goes onto what its type is
compiled to, then the property is marked as optional, then it is given its default. So a default is
always the outermost call, and refinements end up on a wrapped validator exactly where a union with
`null` or `undefined` has refining tags. -/
namespace Schemata.Compilation

open TypeScript DocComment
open Schemata.Expr (Layering Sound Bare isTagged isWrapped isDefaulted tagMethods refinesWrapped
  coversDefault WrapsRefined DefaultsOutermost)

/-- The type and the comment of a documented property whose key is read. -/
def documented? : Member → Option (TypeExpr × String)
  | .property key _ type doc =>
    if key.name?.isSome then doc.map (type.getD .other, ·) else none
  | .method _ _ _ | .index _ | .mapped => none

/-- The documented properties of a type itself. -/
def documented : TypeExpr → List (TypeExpr × String)
  | .object members => members.filterMap documented?
  | _ => []

/-- A comment stands on a type in a declaration: on a property at any depth, or on the declaration
itself where that gives a type another name. -/
inductive Documented (d : Declaration) : TypeExpr → String → Prop
  | whole {t : TypeExpr} {comment : String} :
    d.body = .alias t → d.doc = some comment → Documented d t comment
  | property {whole t u : TypeExpr} {place : List Nat} {comment : String} :
    whole ∈ bodyTypes d.body → Within whole place u → (t, comment) ∈ documented u →
      Documented d t comment

/-- The tags of properties that add to their validators only add to what allows it. -/
def Allowed (ctx : Context) (allows : Expr → Prop) (properties : List (TypeExpr × String)) : Prop :=
  ∀ property ∈ properties, additions (appliedTags ctx (some property.2)) ≠ [] →
    allows (compile ctx property.1)

variable {kind p : Expr → Bool} {ctx : Context} {t : TypeExpr} {e : Expr}

/-- A member adds its type, if there is one, and its comment, if there is one. -/
theorem filterMap_member {α : Type} (view : Member → Option α) (member : Member)
    (rest : List Member) :
    (member :: rest).filterMap view = (view member).toList ++ rest.filterMap view := by
  rw [List.filterMap_cons]
  cases view member <;> rfl

theorem allowed_append {allows : Expr → Prop} (own others : List (TypeExpr × String)) :
    Allowed ctx allows (own ++ others) ↔ Allowed ctx allows own ∧ Allowed ctx allows others := by
  simp only [Allowed, List.forall_mem_append]

theorem sound_compileOr {default : Expr} (passed : Sound kind p default) (type : Option TypeExpr) :
    Sound kind p (compileOr ctx default type) ↔ ∀ t ∈ type.toList, Sound kind p (compile ctx t) := by
  cases type with
  | none => exact iff_of_true passed (List.forall_mem_nil _)
  | some type => rw [compileOr, Option.toList_some, List.forall_mem_singleton]

theorem sound_indexed {α : Type} (view : α → Option TypeExpr) (i : Nat) (xs : List α) :
    (∀ c ∈ indexed view i xs, Sound kind p (compile ctx c.2)) ↔
      ∀ t ∈ xs.filterMap view, Sound kind p (compile ctx t) := by
  rw [← indexed_types view i xs, List.forall_mem_map]

theorem sound_getLast_indexed {α : Type} (view : α → Option TypeExpr) (i : Nat) (xs : List α) :
    (∀ c ∈ (indexed view i xs).getLast?.toList, Sound kind p (compile ctx c.2)) ↔
      ∀ t ∈ (xs.filterMap view).getLast?.toList, Sound kind p (compile ctx t) := by
  rw [← indexed_types view i xs, List.getLast?_map, Option.toList_map, List.forall_mem_map]

/-! ## Fields -/

theorem isDefaulted_callIf (undefaulted : isDefaulted e = false) (condition : Bool) :
    isDefaulted (callIf condition "optional" e) = false := by
  cases condition with
  | false => exact undefaulted
  | true => rfl

section Layered

variable {allows : Expr → Prop} (layering : Layering kind p allows)

include layering

/-- The first refinement is the only one that depends on the expression. -/
theorem selected_chain_iff {calls : List Addition} (undefaulted : isDefaulted e = false)
    (refining : ∀ a ∈ calls, a.method ∈ refinementMethods ∧ ∀ e ∈ a.args, Literal e) :
    isDefaulted (chain e calls) = false ∧ ((chain e calls).selected p = [] ↔
      e.selected p = [] ∧ (calls ≠ [] → allows e)) := by
  induction calls generalizing e with
  | nil => exact ⟨undefaulted, by simp [chain]⟩
  | cons a rest ih =>
    obtain ⟨⟨refines, literals⟩, others⟩ := List.forall_mem_cons.mp refining
    have bare (arg : Expr) (member : arg ∈ a.args) : Bare arg :=
      Expr.bare_of_literal (literals arg member)
    have apart : ∀ method ∈ refinementMethods, (some method == some "default") = false := by decide
    have called : isDefaulted (a.onto e) = false := apart _ refines
    have onto : (a.onto e).selected p = [] ↔ e.selected p = [] ∧ allows e := by
      have args : ∀ arg ∈ a.args, arg.selected p = [] :=
        fun arg member => (layering.sound_bare (bare arg member)).2
      rw [Addition.onto, Expr.selected_eq_nil, Expr.children, List.forall_mem_cons,
        layering.refinement refines undefaulted fun arg member => (bare arg member).undefaulted,
        and_iff_left args, and_comm]
    obtain ⟨still, chained⟩ := ih called others
    refine ⟨still, ?_⟩
    -- What the next call goes onto is a refinement itself, so it allows that whatever `e` was.
    have allowed : allows (a.onto e) := layering.refined refines e a.args
    rw [chain_cons, chained, and_iff_left fun _ => allowed, onto]
    simp

theorem sound_callIf (condition : Bool) {method : String}
    (usual : tagMethods.contains method = false) :
    Sound kind p (callIf condition method e) ↔ Sound kind p e := by
  cases condition with
  | false => rfl
  | true =>
    rw [callIf, if_pos rfl, layering.sound_call usual, and_iff_left (List.forall_mem_nil _)]

theorem selected_field_iff (ctx : Context) (isOptional : Bool) (doc : Option String)
    (untagged : isTagged e = false) : (field ctx isOptional doc e).selected p = [] ↔
      e.selected p = [] ∧ (additions (appliedTags ctx doc) ≠ [] → allows e) := by
  obtain ⟨undefaulted, chained⟩ := selected_chain_iff layering
    (Expr.isDefaulted_of_untagged untagged) fun _ => refines_of_mem_additions
  have marked := isDefaulted_callIf undefaulted isOptional
  have optional : tagMethods.contains "optional" = false := by decide
  rw [field_eq, ← chained, ← layering.sound_iff_selected undefaulted,
    ← sound_callIf layering isOptional optional, layering.sound_iff_selected marked]
  cases last : lastDefault (appliedTags ctx doc) with
  | none => rfl
  | some value =>
    have bare := Expr.bare_of_literal (literal_of_lastDefault last)
    rw [Refined.applyDefault, Expr.selected_eq_nil, layering.default marked bare.undefaulted,
      Expr.children, List.forall_mem_cons, List.forall_mem_singleton, and_iff_right rfl,
      and_iff_left (layering.sound_bare bare).2]

/-! ## Types -/

theorem sound_schema (method : String) : Sound kind p (.schema method) :=
  layering.sound_bare ⟨rfl, rfl⟩

theorem sound_anything : Sound kind p .anything := sound_schema layering "any"

theorem sound_keyword (k : Keyword) : Sound kind p (keyword k) := by
  cases k with
  | object =>
    exact (layering.sound_zod _ _).mpr (List.forall_mem_singleton.mpr (sound_anything layering))
  | _ => exact layering.sound_bare ⟨rfl, rfl⟩

theorem sound_stringValue (literal : String) : Sound kind p (stringValue literal) := by
  unfold stringValue
  split
  · exact layering.sound_bare ⟨rfl, rfl⟩
  · exact layering.sound_bare ⟨rfl, rfl⟩

theorem sound_reference (ctx : Context) (name : String) : Sound kind p (reference ctx name) := by
  have listed : Sound kind p (.zod "array" [.anything]) :=
    (layering.sound_zod _ _).mpr (List.forall_mem_singleton.mpr (sound_anything layering))
  unfold reference
  split
  · exact sound_anything layering
  · split
    case h_5 | h_6 => exact listed
    all_goals exact layering.sound_bare ⟨rfl, rfl⟩

theorem sound_mask (keys : List String) : Sound kind p (mask keys) := by
  rw [mask, layering.sound_object, List.forall_mem_map]
  exact fun key _ => (layering.sound_bare ⟨rfl, rfl⟩).2

theorem sound_unionOf (es : List Expr) : Sound kind p (unionOf es) ↔ ∀ e ∈ es, Sound kind p e := by
  unfold unionOf
  split
  · exact List.forall_mem_singleton.symm
  · rw [layering.sound_zod, List.forall_mem_singleton, layering.sound_array]

theorem sound_foldl_and (others : List Expr) :
    Sound kind p (others.foldl (fun acc next => .call acc "and" [next]) e) ↔
      ∀ part ∈ e :: others, Sound kind p part := by
  induction others generalizing e with
  | nil => exact List.forall_mem_singleton.symm
  | cons next rest ih =>
    rw [List.foldl_cons, ih, List.forall_mem_cons, layering.sound_call (by decide),
      List.forall_mem_singleton, List.forall_mem_cons, List.forall_mem_cons, and_assoc]

theorem sound_intersectionOf (es : List Expr) :
    Sound kind p (intersectionOf es) ↔ ∀ e ∈ es, Sound kind p e := by
  cases es with
  | nil => exact iff_of_true (sound_anything layering) (List.forall_mem_nil _)
  | cons e rest => exact sound_foldl_and layering rest

theorem sound_compileConcrete (ctx : Context) (ts : List TypeExpr) :
    (∀ e ∈ compileConcrete ctx ts, Sound kind p e) ↔ ∀ e ∈ compileAll ctx ts, Sound kind p e := by
  induction ts with
  | nil => rfl
  | cons t rest ih =>
    rw [compileAll, compileConcrete, List.forall_mem_cons, ← ih]
    cases t with
    | null | undefined => exact (and_iff_right (sound_schema layering _)).symm
    | _ => exact List.forall_mem_cons

theorem sound_unionWith {all concrete : List Expr} (hasNull hasUndefined : Bool)
    (same : (∀ e ∈ concrete, Sound kind p e) ↔ ∀ e ∈ all, Sound kind p e) :
    Sound kind p (unionWith hasNull hasUndefined concrete all) ↔ ∀ e ∈ all, Sound kind p e := by
  unfold unionWith
  split
  · exact sound_unionOf layering all
  · rw [sound_callIf layering _ (by decide), sound_callIf layering _ (by decide),
      sound_unionOf layering, same]

theorem sound_objectOf (fields : List (String × Expr)) (index : Option Expr) :
    Sound kind p (objectOf fields index) ↔
      (∀ field ∈ fields, field.2.selected p = []) ∧ ∀ value ∈ index, Sound kind p value := by
  have object : Sound kind p (.zod "object" [.object fields]) ↔
      ∀ field ∈ fields, field.2.selected p = [] := by
    rw [layering.sound_zod, List.forall_mem_singleton, layering.sound_object]
  cases index with
  | none => simp [objectOf, object]
  | some value =>
    cases fields with
    | nil => simp [objectOf, layering.sound_zod]
    | cons field rest =>
      have catchall : tagMethods.contains "catchall" = false := by decide
      simp [objectOf, object, layering.sound_call catchall]

theorem sound_getD (es : List Expr) :
    Sound kind p (es.getD 0 .anything) ↔ ∀ e ∈ es.take 1, Sound kind p e := by
  cases es with
  | nil => exact iff_of_true (sound_anything layering) (List.forall_mem_nil _)
  | cons e rest => exact List.forall_mem_singleton.symm

theorem sound_application (ctx : Context) (name : String) (args : List TypeExpr) (es : List Expr) :
    Sound kind p (application ctx name args es) ↔
      ∀ e ∈ es.take ((argumentsUsed name).getD 0), Sound kind p e := by
  have first := sound_getD layering es
  have both : (Sound kind p (es.getD 0 .anything) ∧ Sound kind p (es.getD 1 .anything)) ↔
      ∀ e ∈ es.take 2, Sound kind p e := by
    match es with
    | [] => simp [sound_anything layering]
    | [e] => simp [sound_anything layering]
    | e :: other :: rest => simp
  have mask := sound_mask layering ((args[1]?).elim [] literalKeys)
  have partly {method : String} (usual : tagMethods.contains method = false) {others : List Expr}
      (sound : ∀ e ∈ others, Sound kind p e) :
      Sound kind p (.call (es.getD 0 .anything) method others) ↔ ∀ e ∈ es.take 1, Sound kind p e := by
    rw [layering.sound_call usual, and_iff_left sound, first]
  unfold application
  split
  case h_5 | h_6 =>
    rw [layering.sound_zod, List.forall_mem_cons, List.forall_mem_singleton]
    exact both
  case h_7 | h_8 => exact partly (by decide) (List.forall_mem_nil _)
  case h_9 | h_10 => exact first
  case h_11 | h_12 => exact partly (by decide) (List.forall_mem_singleton.mpr mask)
  case h_13 =>
    have unused : argumentsUsed name = none := by
      unfold argumentsUsed
      split <;> first | contradiction | rfl
    rw [unused]
    exact iff_of_true (sound_reference layering ctx name) (List.forall_mem_nil _)
  all_goals
    rw [layering.sound_zod, List.forall_mem_singleton]
    exact first

theorem sound_restElement (ctx : Context) (t : TypeExpr) :
    Sound kind p (compile ctx (restElement t)) ↔ Sound kind p (compile ctx t) := by
  cases t with
  | array element =>
    rw [compile, layering.sound_zod, List.forall_mem_singleton]
    rfl
  | _ => rfl

theorem sound_compileItems (ctx : Context) (es : List TupleElement) :
    (∀ e ∈ compileItems ctx es, Sound kind p e) ↔
      ∀ t ∈ es.filterMap itemType?, Sound kind p (compile ctx t) := by
  induction es with
  | nil => exact iff_of_true (List.forall_mem_nil _) (List.forall_mem_nil _)
  | cons element rest ih =>
    cases element with
    | required label type =>
      have shown : itemType? (.required label type) = some type := rfl
      rw [compileItems, List.filterMap_cons_some shown, List.forall_mem_cons, List.forall_mem_cons, ih]
    | optional label type =>
      have shown : itemType? (.optional label type) = some type := rfl
      rw [compileItems, List.filterMap_cons_some shown, List.forall_mem_cons, List.forall_mem_cons,
        ih, layering.sound_call (by decide), and_iff_left (List.forall_mem_nil _)]
    | rest label type =>
      cases label with
      | none => exact ih
      | some label =>
        have shown : itemType? (.rest (some label) type) = some type := rfl
        rw [compileItems, List.filterMap_cons_some shown, List.forall_mem_cons, List.forall_mem_cons,
          ih]

theorem sound_compileParameters (ctx : Context) (ps : List Parameter) :
    (∀ e ∈ compileParameters ctx ps, Sound kind p e) ↔
      ∀ t ∈ ps.filterMap parameterType?, Sound kind p (compile ctx t) := by
  induction ps with
  | nil => exact iff_of_true (List.forall_mem_nil _) (List.forall_mem_nil _)
  | cons parameter rest ih =>
    cases parameter with
    | mk isOptional type =>
      rw [compileParameters, List.forall_mem_cons, sound_callIf layering _ (by decide),
        sound_compileOr (sound_anything layering), ih, List.filterMap_cons, parameterType?]
      cases type with
      | none => exact and_iff_right (List.forall_mem_nil _)
      | some type => rw [Option.toList_some, List.forall_mem_singleton, List.forall_mem_cons]

theorem selected_property_iff (ctx : Context) (isOptional : Bool) (type : Option TypeExpr)
    (doc : Option String) :
    (field ctx isOptional doc (compileOr ctx .anything type)).selected p = [] ↔
      (∀ t ∈ type.toList, Sound kind p (compile ctx t)) ∧
        Allowed ctx allows (doc.toList.map (type.getD .other, ·)) := by
  have compiled : compileOr ctx .anything type = compile ctx (type.getD .other) := by
    cases type <;> rfl
  have untagged := isTagged_compile ctx (type.getD .other)
  rw [compiled, selected_field_iff layering ctx isOptional doc untagged,
    ← layering.sound_iff_selected (Expr.isDefaulted_of_untagged untagged), ← compiled,
    sound_compileOr (sound_anything layering)]
  refine and_congr_right fun _ => ?_
  cases doc with
  | none => simp [Allowed, appliedTags_none, additions]
  | some comment => simp [Allowed, compiled]

theorem selected_compileFields_iff (ctx : Context) (ms : List Member) :
    (∀ field ∈ compileFields ctx ms, field.2.selected p = []) ↔
      (∀ t ∈ ms.filterMap fieldType?, Sound kind p (compile ctx t)) ∧
        Allowed ctx allows (ms.filterMap documented?) := by
  induction ms with
  | nil => simp [compileFields, Allowed]
  | cons member rest ih =>
    cases member with
    | property key isOptional type doc =>
      rw [compileFields, filterMap_member, filterMap_member, fieldType?, documented?]
      cases key.name? with
      | none => exact ih
      | some name =>
        rw [List.forall_mem_cons, ih, selected_property_iff layering, List.forall_mem_append,
          allowed_append, Option.isSome_some, if_pos rfl, if_pos rfl, Option.toList_map]
        exact and_and_and_comm
    | method key isOptional signature =>
      rw [compileFields, filterMap_member, filterMap_member, fieldType?, documented?]
      cases key.name? with
      | none => exact ih
      | some name =>
        have method : (callIf isOptional "optional" (compileSignature ctx signature)).selected p = [] ↔
            Sound kind p (compile ctx (.function signature)) := by
          have undefaulted : isDefaulted (compileSignature ctx signature) = false :=
            Expr.isDefaulted_of_untagged (isTagged_compile ctx (.function signature))
          rw [← layering.sound_iff_selected (isDefaulted_callIf undefaulted isOptional)]
          exact sound_callIf layering isOptional (by decide)
        rw [List.forall_mem_cons, ih, method, Option.isSome_some, if_pos rfl, Option.toList_some,
          List.singleton_append, List.forall_mem_cons, and_assoc]
        rfl
    | index | mapped => exact ih

theorem sound_compile_of_ne_object (ctx : Context) (other : ∀ members, t ≠ .object members) :
    Sound kind p (compile ctx t) ↔ ∀ c ∈ components t, Sound kind p (compile ctx c.2) := by
  have alone {e : Expr} (sound : Sound kind p e) : Sound kind p e ↔
      ∀ c ∈ ([] : List (Nat × TypeExpr)), Sound kind p (compile ctx c.2) :=
    iff_of_true sound (List.forall_mem_nil _)
  have literal {e : Expr} (sound : Sound kind p e) : Sound kind p (.zod "literal" [e]) :=
    (layering.sound_zod _ _).mpr (List.forall_mem_singleton.mpr sound)
  cases t with
  | keyword k => exact alone (sound_keyword layering k)
  | null | undefined | template => exact alone (sound_schema layering _)
  | other => exact alone (sound_anything layering)
  | boolLiteral | numberLiteral => exact alone (literal (layering.sound_bare ⟨rfl, rfl⟩))
  | stringLiteral text => exact alone (literal (sound_stringValue layering text))
  | ref name => exact alone (sound_reference layering ctx name)
  | apply name args =>
    rw [compile, sound_application layering, components, compileAll_eq, ← List.map_take,
      ← take_indexed_types 0, List.map_map, List.forall_mem_map]
    rfl
  | array type =>
    rw [compile, layering.sound_zod, components, List.forall_mem_singleton,
      List.forall_mem_singleton]
  | readonly type | paren type =>
    rw [compile, components, List.forall_mem_singleton]
  | tuple elements =>
    have items : Sound kind p (.zod "tuple" [.array (compileItems ctx elements)]) ↔
        ∀ c ∈ indexed itemType? 0 elements, Sound kind p (compile ctx c.2) := by
      rw [layering.sound_zod, List.forall_mem_singleton, layering.sound_array,
        sound_compileItems layering, sound_indexed]
    rw [compile, compileRest_eq, components, List.forall_mem_append, ← items, sound_getLast_indexed]
    cases (elements.filterMap openRestType?).getLast? with
    | none => exact (and_iff_left (List.forall_mem_nil _)).symm
    | some type =>
      rw [Option.map_some, layering.sound_call (by decide), List.forall_mem_singleton,
        sound_restElement layering, Option.toList_some, List.forall_mem_singleton]
  | union members =>
    rw [compile, sound_unionWith layering _ _ (sound_compileConcrete layering ctx members),
      compileAll_eq, List.forall_mem_map, components, sound_indexed, List.filterMap_some]
  | inter members =>
    rw [compile, sound_intersectionOf layering, compileAll_eq, List.forall_mem_map, components,
      sound_indexed, List.filterMap_some]
  | object members => exact absurd rfl (other members)
  | function signature =>
    cases signature with
    | mk typeParameters parameters result =>
      have function := sound_schema layering "function"
      have void := sound_schema layering "void"
      rw [compile, compileSignature, layering.sound_call (by decide), layering.sound_call (by decide),
        and_iff_right function, sound_compileParameters layering, List.forall_mem_singleton,
        sound_compileOr void, components, List.forall_mem_append, sound_indexed, Option.toList_map,
        List.forall_mem_map]
  | lookup object index =>
    rw [compile, components]
    cases literalKeys index with
    | nil => exact alone (sound_anything layering)
    | cons key others =>
      cases others with
      | nil =>
        rw [layering.sound_member, layering.sound_member, List.length_singleton, if_pos rfl,
          List.forall_mem_singleton]
      | cons => exact alone (sound_anything layering)

/-- The layers of a validator are as they should be if the tags of the type itself are allowed and
those of its components' validators are. -/
theorem sound_compile (ctx : Context) (t : TypeExpr) : Sound kind p (compile ctx t) ↔
    Allowed ctx allows (documented t) ∧ ∀ c ∈ components t, Sound kind p (compile ctx c.2) := by
  cases t with
  | object members =>
    rw [compile, sound_objectOf layering, selected_compileFields_iff layering, compileIndex_eq,
      components, List.forall_mem_append, sound_indexed, sound_getLast_indexed, documented,
      and_comm (b := Allowed _ _ _), and_assoc]
    cases (members.filterMap indexType?).getLast? with
    | none => simp
    | some value => simp
  | _ =>
    rw [sound_compile_of_ne_object layering ctx fun members same => by cases same]
    exact (and_iff_right (List.forall_mem_nil _)).symm

theorem sound_compile_iff (ctx : Context) (t : TypeExpr) : Sound kind p (compile ctx t) ↔
    ∀ place u, Within t place u → Allowed ctx allows (documented u) := by
  induction t using components_induction with
  | node t ih =>
    rw [sound_compile layering, forall_within_iff]
    exact and_congr_right fun _ => forall₂_congr fun c below => ih c below

/-! ## Declarations -/

theorem sound_foldl_extend (base : Expr) (others : List Expr) :
    Sound kind p (others.foldl (fun acc other => .call acc "extend" [.member other "shape"]) base) ↔
      ∀ e ∈ base :: others, Sound kind p e := by
  induction others generalizing base with
  | nil => exact List.forall_mem_singleton.symm
  | cons other rest ih =>
    rw [List.foldl_cons, ih, List.forall_mem_cons, layering.sound_call (by decide),
      List.forall_mem_singleton, layering.sound_member, List.forall_mem_cons, List.forall_mem_cons,
      and_assoc]

theorem sound_extending (bases : List Expr) (fields : List (String × Expr)) :
    Sound kind p (extending bases fields) ↔
      (∀ e ∈ bases, Sound kind p e) ∧ ∀ field ∈ fields, field.2.selected p = [] := by
  cases bases with
  | nil =>
    rw [extending, layering.sound_zod, List.forall_mem_singleton, layering.sound_object,
      and_iff_right (List.forall_mem_nil _)]
  | cons base others =>
    rw [extending, layering.sound_call (by decide), sound_foldl_extend layering,
      List.forall_mem_singleton, layering.sound_object]

theorem sound_compileBody (ctx : Context) (name : String) (body : Body) :
    Sound kind p (compileBody ctx name body) ↔
      ∀ whole ∈ bodyTypes body, Sound kind p (compile ctx whole) := by
  match body with
  | .alias type =>
    rw [bodyTypes, List.forall_mem_singleton]
    rfl
  | .enum =>
    have raw : Sound kind p (.raw name) := layering.sound_bare ⟨rfl, rfl⟩
    exact iff_of_true ((layering.sound_zod _ _).mpr (List.forall_mem_singleton.mpr raw))
      (List.forall_mem_nil _)
  | .interface bases members =>
    have object : Sound kind p (compileBody ctx name (.interface bases members)) ↔
        Sound kind p (extending (compileAll ctx bases) (compileFields ctx members)) ∧
          ∀ value ∈ compileIndex ctx members, Sound kind p value := by
      rw [compileBody]
      cases compileIndex ctx members with
      | none => simp
      | some value =>
        rw [layering.sound_call (by decide), List.forall_mem_singleton]
        simp
    rw [object, sound_extending layering, bodyTypes, List.forall_mem_append,
      List.forall_mem_singleton, compile, sound_objectOf layering, compileAll_eq, List.forall_mem_map,
      and_assoc]

theorem selected_compileDeclaration_iff (options : Options) (d : Declaration) :
    (compileDeclaration options d).selected p = [] ↔
      (∀ whole ∈ bodyTypes d.body, ∀ place u, Within whole place u →
        Allowed (options.context d) allows (documented u)) ∧
      (additions (appliedTags (options.context d) d.doc) ≠ [] →
        allows (compileBody (options.context d) d.name d.body)) := by
  have untagged := isTagged_compileBody (options.context d) d.name d.body
  rw [compileDeclaration, selected_field_iff layering _ _ _ untagged,
    ← layering.sound_iff_selected (Expr.isDefaulted_of_untagged untagged),
    sound_compileBody layering]
  simp only [sound_compile_iff layering]

end Layered

/-- Refinements come before wrappers exactly if no refining tags are applied to a union that is wrapped
itself. A default value is the outermost call in any case. -/
theorem layers_ordered_iff (options : Options) (d : Declaration) :
    (WrapsRefined (compileDeclaration options d) ↔ (options.ignoreTags = false →
      ∀ t comment, Documented d t comment → additions (Tag.ofComment comment) ≠ [] →
        wrapper? (root t) = none)) ∧
      DefaultsOutermost (compileDeclaration options d) := by
  refine ⟨?_, ?_⟩
  · rw [Expr.wrapsRefined_iff, selected_compileDeclaration_iff Expr.layering_refinesWrapped]
    constructor
    · rintro ⟨properties, whole⟩ applied t comment documented refining
      have added {ctx : Context} (same : ctx.ignoreTags = options.ignoreTags) :
          additions (appliedTags ctx (some comment)) ≠ [] :=
        additions_appliedTags.mpr ⟨same.trans applied, refining⟩
      rcases documented with ⟨body, doc⟩ | ⟨listed, inside, member⟩
      · rw [doc] at whole
        exact isWrapped_compileBody_eq_false.mp (whole (added rfl)) t body
      · exact isWrapped_compile_eq_false.mp (properties _ listed _ _ inside _ member (added rfl))
    · intro unwrapped
      refine ⟨fun whole listed place u inside property member added => ?_, fun added => ?_⟩
      · obtain ⟨applied, refining⟩ := additions_appliedTags.mp added
        refine isWrapped_compile_eq_false.mpr ?_
        exact unwrapped applied _ _ (.property listed inside member) refining
      · -- Interfaces and enumerations are not wrapped as a whole, so their own tags do no harm.
        refine isWrapped_compileBody_eq_false.mpr fun t body => ?_
        cases doc : d.doc with
        | none =>
          rw [doc, appliedTags_none] at added
          exact absurd rfl added
        | some comment =>
          rw [doc] at added
          obtain ⟨applied, refining⟩ := additions_appliedTags.mp added
          exact unwrapped applied t comment (.whole body doc) refining
  · rw [Expr.defaultsOutermost_iff, selected_compileDeclaration_iff Expr.layering_coversDefault]
    exact ⟨fun _ _ _ _ _ _ _ _ => trivial, fun _ => trivial⟩

/-- A property that may be null, with a tag that asks for a least length. -/
def nameSource : String := "interface User \x7b /** @minLength 1 */ name: string | null \x7d\n"

/-- The least length is asked of the wrapped validator. -/
theorem not_wrapsRefined_name : ∃ d, Source.parse false nameSource = .ok [d] ∧
    ¬ WrapsRefined (compileDeclaration standardOptions d) := by
  have evaluated : (Source.parse false nameSource).map (fun ds => ds.map fun d =>
      (compileDeclaration standardOptions d).parts.any refinesWrapped) = .ok [true] := by
    decide +kernel
  obtain ⟨d, parsed, found⟩ := declaration_of_map evaluated
  obtain ⟨part, inside, refines⟩ := List.any_eq_true.mp found
  exact ⟨d, parsed, fun ordered => Bool.noConfusion (refines.symm.trans (ordered part inside))⟩

end Schemata.Compilation
