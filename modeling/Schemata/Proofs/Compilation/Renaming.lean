import Schemata.Proofs.Compilation.References
import Schemata.Proofs.Expr.Renaming

/-! Compiling does not look at what validators are called. A validator is the one in which each
reference keeps the name that it is written with, renamed: so every reference in it comes from a
name that is written in the declaration. -/
namespace Schemata.Compilation

open TypeScript DocComment

/-- The context in which each reference keeps the name that it is written with. -/
def Context.written (ctx : Context) : Context := { ctx with validatorName := id }

/-- The options with which each reference keeps the name that it is written with. -/
def Options.written (options : Options) : Options := { options with dependencyName := id }

variable {ctx : Context} {f : String → String} {e : Expr} {es : List Expr}

theorem rename_of_unmarked (unmarked : e.marks = []) : e.rename f = e := by
  apply Expr.rename_eq_self
  rw [Expr.mentions_eq_marks, unmarked, List.flatMap_nil]

theorem rename_reference (ctx : Context) (name : String) :
    (reference ctx.written name).rename ctx.validatorName = reference ctx name := by
  unfold reference
  split
  · rw [if_pos (by assumption)]
    rfl
  · rw [if_neg (by assumption)]
    split
    all_goals rfl

theorem getD_rename (i : Nat) :
    (es.map (Expr.rename f)).getD i .anything = (es.getD i .anything).rename f := by
  rw [List.getD_eq_getElem?_getD, List.getD_eq_getElem?_getD, List.getElem?_map]
  cases es[i]? with
  | none => rfl
  | some e => rfl

theorem rename_application (ctx : Context) (name : String) (args : List TypeExpr) (es : List Expr) :
    (application ctx.written name args es).rename ctx.validatorName =
      application ctx name args (es.map (Expr.rename ctx.validatorName)) := by
  have keys (texts : List String) : (mask texts).rename ctx.validatorName = mask texts :=
    rename_of_unmarked (selected_mask Expr.plain_isMark texts)
  unfold application
  simp only [getD_rename]
  split
  case h_13 => exact rename_reference ctx name
  all_goals simp [keys]

theorem rename_callIf (condition : Bool) (method : String) :
    (callIf condition method e).rename f = callIf condition method (e.rename f) := by
  cases condition with
  | false => rfl
  | true => simp [callIf]

theorem rename_unionOf (es : List Expr) :
    (unionOf es).rename f = unionOf (es.map (Expr.rename f)) := by
  match es with
  | [] => simp [unionOf]
  | [e] => simp [unionOf]
  | e :: other :: rest => simp [unionOf]

theorem rename_unionWith (hasNull hasUndefined : Bool) (concrete all : List Expr) :
    (unionWith hasNull hasUndefined concrete all).rename f =
      unionWith hasNull hasUndefined (concrete.map (Expr.rename f)) (all.map (Expr.rename f)) := by
  unfold unionWith
  rw [List.isEmpty_map]
  split
  · exact rename_unionOf all
  · rw [rename_callIf, rename_callIf, rename_unionOf]

theorem rename_intersectionOf (es : List Expr) :
    (intersectionOf es).rename f = intersectionOf (es.map (Expr.rename f)) := by
  have fold (others : List Expr) (e : Expr) :
      (others.foldl (fun acc next => .call acc "and" [next]) e).rename f =
        (others.map (Expr.rename f)).foldl (fun acc next => .call acc "and" [next])
          (e.rename f) := by
    induction others generalizing e with
    | nil => rfl
    | cons next rest ih => simp [ih]
  cases es with
  | nil => rfl
  | cons e rest => exact fold rest e

theorem rename_objectOf (fields : List (String × Expr)) (index : Option Expr) :
    (objectOf fields index).rename f = objectOf (fields.map fun field => (field.1, field.2.rename f))
      (index.map (Expr.rename f)) := by
  cases index with
  | none => simp [objectOf]
  | some value =>
    cases fields with
    | nil => simp [objectOf]
    | cons field rest => simp [objectOf]

theorem rename_extending (bases : List Expr) (fields : List (String × Expr)) :
    (extending bases fields).rename f = extending (bases.map (Expr.rename f))
      (fields.map fun field => (field.1, field.2.rename f)) := by
  have fold (others : List Expr) (base : Expr) :
      (others.foldl (fun acc other => .call acc "extend" [.member other "shape"]) base).rename f =
        (others.map (Expr.rename f)).foldl
          (fun acc other => .call acc "extend" [.member other "shape"]) (base.rename f) := by
    induction others generalizing base with
    | nil => rfl
    | cons other rest ih => simp [ih]
  cases bases with
  | nil => simp [extending]
  | cons base others => simp [extending, fold]

/-! ## Tags -/

theorem rename_literal (literal : Literal e) : e.rename f = e := by
  cases literal <;> rfl

theorem rename_chain {calls : List Addition}
    (refining : ∀ a ∈ calls, a.method ∈ refinementMethods ∧ ∀ e ∈ a.args, Literal e) :
    (chain e calls).rename f = chain (e.rename f) calls := by
  induction calls generalizing e with
  | nil => rfl
  | cons a rest ih =>
    obtain ⟨⟨-, literals⟩, others⟩ := List.forall_mem_cons.mp refining
    have args : a.args.map (Expr.rename f) = a.args := by
      rw [List.map_congr_left fun arg member => rename_literal (literals arg member), List.map_id']
    rw [chain_cons, chain_cons, ih others, Addition.onto, Addition.onto, Expr.rename_call, args]

theorem rename_field (ctx : Context) (isOptional : Bool) (doc : Option String) (e : Expr) :
    (field ctx.written isOptional doc e).rename f = field ctx isOptional doc (e.rename f) := by
  have same : appliedTags ctx.written doc = appliedTags ctx doc := rfl
  have marked : (callIf isOptional "optional" (chain e (additions (appliedTags ctx doc)))).rename f =
      callIf isOptional "optional" (chain (e.rename f) (additions (appliedTags ctx doc))) := by
    rw [rename_callIf, rename_chain fun _ => refines_of_mem_additions]
  rw [field_eq, field_eq, same]
  cases last : lastDefault (appliedTags ctx doc) with
  | none => exact marked
  | some value =>
    rw [Refined.applyDefault, Refined.applyDefault, Expr.rename_call, marked, List.map_singleton,
      rename_literal (literal_of_lastDefault last)]

/-! ## Types -/

theorem orElse_rename {found written : Option Expr} {here : Expr}
    (later : written.map (Expr.rename f) = found) (same : here.rename f = e) :
    (written <|> some here).map (Expr.rename f) = (found <|> some e) := by
  subst later same
  cases written with
  | none => rfl
  | some other => rfl

mutual

theorem rename_compile (ctx : Context) : ∀ t : TypeExpr,
    (compile ctx.written t).rename ctx.validatorName = compile ctx t
  | .keyword k => rename_of_unmarked (selected_keyword Expr.plain_isMark k)
  | .null | .undefined | .boolLiteral _ | .numberLiteral _ | .template | .other => rfl
  | .stringLiteral literal => by
    simp [compile, rename_of_unmarked (selected_stringValue Expr.plain_isMark literal)]
  | .ref name => rename_reference ctx name
  | .apply name args => by
    rw [compile, compile, rename_application, rename_compileAll ctx args]
  | .array type => by simp [compile, rename_compile ctx type]
  | .readonly type | .paren type => rename_compile ctx type
  | .tuple elements => by
    rw [compile, compile, ← rename_compileRest ctx elements, ← rename_compileItems ctx elements]
    cases compileRest ctx.written elements with
    | none => simp
    | some rest => simp
  | .union members => by
    rw [compile, compile, rename_unionWith, rename_compileConcrete ctx members,
      rename_compileAll ctx members]
  | .inter members => by
    rw [compile, compile, rename_intersectionOf, rename_compileAll ctx members]
  | .object members => by
    rw [compile, compile, rename_objectOf, rename_compileFields ctx members,
      rename_compileIndex ctx members]
  | .function signature => rename_compileSignature ctx signature
  | .lookup object index => by
    rw [compile, compile]
    cases literalKeys index with
    | nil => rfl
    | cons key others =>
      cases others with
      | nil => simp [rename_compile ctx object]
      | cons => rfl

theorem rename_compileAll (ctx : Context) : ∀ ts : List TypeExpr,
    (compileAll ctx.written ts).map (Expr.rename ctx.validatorName) = compileAll ctx ts
  | [] => rfl
  | t :: ts => by
    rw [compileAll, compileAll, List.map_cons, rename_compile ctx t, rename_compileAll ctx ts]

theorem rename_compileConcrete (ctx : Context) : ∀ ts : List TypeExpr,
    (compileConcrete ctx.written ts).map (Expr.rename ctx.validatorName) = compileConcrete ctx ts
  | [] => rfl
  | t :: ts => by
    rw [compileConcrete, compileConcrete]
    split
    · exact rename_compileConcrete ctx ts
    · rw [List.map_cons, rename_compile ctx t, rename_compileConcrete ctx ts]

theorem rename_compileItems (ctx : Context) : ∀ es : List TupleElement,
    (compileItems ctx.written es).map (Expr.rename ctx.validatorName) = compileItems ctx es
  | [] => rfl
  | .required _ type :: es | .optional _ type :: es | .rest (some _) type :: es => by
    simp [compileItems, rename_compile ctx type, rename_compileItems ctx es]
  | .rest none _ :: es => rename_compileItems ctx es

theorem rename_compileRest (ctx : Context) : ∀ es : List TupleElement,
    (compileRest ctx.written es).map (Expr.rename ctx.validatorName) = compileRest ctx es
  | [] => rfl
  | .rest none type :: es => by
    have later := rename_compileRest ctx es
    have here := rename_compile ctx type
    cases type with
    | array element =>
      rw [compile, compile, Expr.rename_zod] at here
      exact orElse_rename later (List.cons.inj (Expr.zod.inj here).2).1
    | _ => exact orElse_rename later here
  | .rest (some _) _ :: es | .required _ _ :: es | .optional _ _ :: es => rename_compileRest ctx es

theorem rename_compileFields (ctx : Context) : ∀ ms : List Member,
    (compileFields ctx.written ms).map (fun field => (field.1, field.2.rename ctx.validatorName)) =
      compileFields ctx ms
  | [] => rfl
  | .property key isOptional type doc :: ms => by
    rw [compileFields, compileFields]
    cases key.name? with
    | none => exact rename_compileFields ctx ms
    | some name =>
      simp [rename_field, rename_compileOr ctx .anything rfl type, rename_compileFields ctx ms]
  | .method key isOptional signature :: ms => by
    rw [compileFields, compileFields]
    cases key.name? with
    | none => exact rename_compileFields ctx ms
    | some name =>
      simp [rename_callIf, rename_compileSignature ctx signature, rename_compileFields ctx ms]
  | .index _ :: ms | .mapped :: ms => rename_compileFields ctx ms

theorem rename_compileIndex (ctx : Context) : ∀ ms : List Member,
    (compileIndex ctx.written ms).map (Expr.rename ctx.validatorName) = compileIndex ctx ms
  | [] => rfl
  | .index value :: ms => orElse_rename (rename_compileIndex ctx ms) (rename_compile ctx value)
  | .mapped :: ms => orElse_rename (rename_compileIndex ctx ms) rfl
  | .property _ _ _ _ :: ms | .method _ _ _ :: ms => rename_compileIndex ctx ms

theorem rename_compileSignature (ctx : Context) : ∀ s : Signature,
    (compileSignature ctx.written s).rename ctx.validatorName = compileSignature ctx s
  | .mk _ parameters result => by
    simp [compileSignature, rename_compileParameters ctx parameters,
      rename_compileOr ctx (.schema "void") rfl result]

theorem rename_compileParameters (ctx : Context) : ∀ ps : List Parameter,
    (compileParameters ctx.written ps).map (Expr.rename ctx.validatorName) =
      compileParameters ctx ps
  | [] => rfl
  | .mk _ type :: ps => by
    simp [compileParameters, rename_callIf, rename_compileOr ctx .anything rfl type,
      rename_compileParameters ctx ps]

theorem rename_compileOr (ctx : Context) (other : Expr)
    (same : other.rename ctx.validatorName = other) : ∀ t : Option TypeExpr,
    (compileOr ctx.written other t).rename ctx.validatorName = compileOr ctx other t
  | some type => rename_compile ctx type
  | none => same

end

theorem rename_compileBody (ctx : Context) (name : String) (body : Body) :
    (compileBody ctx.written name body).rename ctx.validatorName = compileBody ctx name body := by
  match body with
  | .alias type => exact rename_compile ctx type
  | .interface bases members =>
    rw [compileBody, compileBody, ← rename_compileIndex ctx members]
    have object : (extending (compileAll ctx.written bases)
        (compileFields ctx.written members)).rename ctx.validatorName =
          extending (compileAll ctx bases) (compileFields ctx members) := by
      rw [rename_extending, rename_compileAll, rename_compileFields]
    cases compileIndex ctx.written members with
    | none => exact object
    | some value => simp [object]
  | .enum => rfl

/-- A declaration's validator is the one with the written names, renamed. -/
theorem rename_compileDeclaration (options : Options) (d : Declaration) :
    (compileDeclaration options.written d).rename options.dependencyName =
      compileDeclaration options d := by
  have context : options.written.context d = (options.context d).written := rfl
  rw [compileDeclaration, compileDeclaration, context, rename_field]
  exact congrArg (field _ _ _) (rename_compileBody (options.context d) d.name d.body)

end Schemata.Compilation
