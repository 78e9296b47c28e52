import Schemata.Proofs.Compilation.References
import Schemata.Proofs.Expr.AnythingUse

/-! What the validator of a type is as a whole: the schema that accepts everything, the validator of a
declared type, a field that is looked up, or a schema with a constructor or a call of its own. -/
namespace Schemata.Compilation

open TypeScript Semantics

inductive Form where
  | anything
  | reference (name : String)
  /-- The field of an object under a key. -/
  | field (object : TypeExpr) (key : String)
  | schema

/-- The type without what its validator does not show: parentheses, `readonly`, unions and
intersections of one member, and the generic types that have the validator of their argument. -/
def root : TypeExpr → TypeExpr
  | .paren t => root t
  | .readonly t => root t
  | .apply name (t :: args) => if name ∈ transparentNames then root t else .apply name (t :: args)
  | .union [t] => root t
  | .inter [t] => root t
  | t => t

def nameForm (bound : List String) (name : String) : Form :=
  if name ∈ bound then .anything else if name ∈ builtInNames then .schema else .reference name

def rootForm (bound : List String) : TypeExpr → Form
  | .keyword .any | .keyword .uniqueSymbol | .inter [] | .other => .anything
  | .ref name => nameForm bound name
  | .apply name _ =>
    if name ∈ transparentNames then .anything
    else if (argumentsUsed name).isSome then .schema
    else nameForm bound name
  | .lookup object index =>
    match literalKeys index with
    | [key] => .field object key
    | _ => .anything
  | _ => .schema

/-- The form of the validator of a type, given the type parameters. -/
def form (bound : List String) (t : TypeExpr) : Form := rootForm bound (root t)

/-- Whether an expression has a constructor or a call of its own, and accepts not everything. -/
def isSchema : Expr → Bool
  | .zod method args => !Expr.isAnything (.zod method args)
  | .call _ _ _ => true
  | _ => false

def Form.Describes (ctx : Context) (e : Expr) : Form → Prop
  | .anything => e = .anything
  | .reference name => e = .ident (ctx.validatorName name)
  | .field object key => e = .member (.member (compile ctx object) "shape") key
  | .schema => isSchema e = true

variable {ctx : Context} {t : TypeExpr} {es : List Expr}

theorem isSchema_unionOf (several : es.length ≠ 1) : isSchema (unionOf es) = true := by
  match es with
  | [] => rfl
  | [e] => exact absurd rfl several
  | e :: other :: rest => rfl

theorem isSchema_foldl_and {e : Expr} (schema : isSchema e = true) :
    isSchema (es.foldl (fun acc next => .call acc "and" [next]) e) = true := by
  induction es generalizing e with
  | nil => exact schema
  | cons next rest ih => exact ih rfl

theorem compileConcrete_eq_compileAll {ts : List TypeExpr} (hasNull : ts.any isNull = false)
    (hasUndefined : ts.any isUndefined = false) : compileConcrete ctx ts = compileAll ctx ts := by
  induction ts with
  | nil => rfl
  | cons t rest ih =>
    rw [List.any_cons, Bool.or_eq_false_iff] at hasNull hasUndefined
    rw [compileConcrete, compileAll, isNullish, hasNull.1, hasUndefined.1,
      ih hasNull.2 hasUndefined.2]
    rfl

theorem isSchema_unionWith {ts : List TypeExpr} (several : ts.length ≠ 1) :
    isSchema (unionWith (ts.any isNull) (ts.any isUndefined) (compileConcrete ctx ts)
      (compileAll ctx ts)) = true := by
  have all : isSchema (unionOf (compileAll ctx ts)) = true := by
    apply isSchema_unionOf
    rwa [compileAll_eq, List.length_map]
  unfold unionWith
  split
  · exact all
  · cases hasUndefined : ts.any isUndefined with
    | true => rfl
    | false =>
      cases hasNull : ts.any isNull with
      | true => rfl
      | false =>
        rw [compileConcrete_eq_compileAll hasNull hasUndefined]
        exact all

theorem isSchema_objectOf (fields : List (String × Expr)) (index : Option Expr) :
    isSchema (objectOf fields index) = true := by
  unfold objectOf
  split
  · rfl
  · split <;> rfl

theorem isSchema_application {name : String} (kept : name ∉ transparentNames)
    (used : (argumentsUsed name).isSome = true) (args : List TypeExpr) :
    isSchema (application ctx name args es) = true := by
  unfold argumentsUsed at used
  split at used
  case h_13 => contradiction
  case h_7 | h_8 => exact absurd (by decide) kept
  all_goals rfl

theorem compile_union_singleton (ctx : Context) (t : TypeExpr) :
    compile ctx (.union [t]) = compile ctx t := by
  cases t <;> rfl

theorem nameForm_describes (ctx : Context) (name : String) :
    (nameForm ctx.parameters name).Describes ctx (reference ctx name) := by
  unfold nameForm
  split
  · rename_i bound
    exact if_pos bound
  · rename_i free
    split
    · rename_i builtIn
      unfold reference
      rw [if_neg free]
      simp only [builtInNames, listNames, List.cons_append, List.nil_append, List.mem_cons,
        List.not_mem_nil, or_false] at builtIn
      rcases builtIn with rfl | rfl | rfl | rfl | rfl | rfl <;> rfl
    · rename_i other
      exact reference_eq_ident free other

theorem application_describes {name : String} (kept : name ∉ transparentNames)
    (args : List TypeExpr) :
    (rootForm ctx.parameters (.apply name args)).Describes ctx (compile ctx (.apply name args)) := by
  rw [rootForm, if_neg kept, compile]
  split
  · rename_i used
    exact isSchema_application kept used args
  · rename_i unused
    rw [application_eq_reference (Option.not_isSome_iff_eq_none.mp unused)]
    exact nameForm_describes ctx name

theorem form_describes (ctx : Context) (t : TypeExpr) :
    (form ctx.parameters t).Describes ctx (compile ctx t) := by
  unfold form
  fun_induction root t with
  | case1 t ih => exact ih
  | case2 t ih => exact ih
  | case3 name t args transparent ih =>
    rcases List.mem_pair.mp transparent with rfl | rfl
    · exact ih
    · exact ih
  | case4 name t args kept => exact application_describes kept (t :: args)
  | case5 t ih =>
    rw [compile_union_singleton]
    exact ih
  | case6 t ih => exact ih
  | case7 t paren readonly applied union inter =>
    cases t with
    | keyword k => cases k <;> rfl
    | ref name => exact nameForm_describes ctx name
    | apply name args =>
      cases args with
      | nil =>
        by_cases transparent : name ∈ transparentNames
        · rcases List.mem_pair.mp transparent with rfl | rfl <;> rfl
        · exact application_describes transparent []
      | cons t args => exact absurd rfl (applied name t args)
    | paren t => exact absurd rfl (paren t)
    | readonly t => exact absurd rfl (readonly t)
    | tuple elements =>
      rw [compile]
      cases compileRest ctx elements <;> rfl
    | union members =>
      refine isSchema_unionWith fun one => ?_
      obtain ⟨t, rfl⟩ := List.length_eq_one_iff.mp one
      exact union t rfl
    | inter members =>
      rcases members with _ | ⟨t, _ | ⟨u, rest⟩⟩
      · rfl
      · exact absurd rfl (inter t)
      · rw [compile, compileAll, compileAll, intersectionOf, List.foldl_cons]
        exact isSchema_foldl_and rfl
    | object members => exact isSchema_objectOf _ _
    | function signature =>
      cases signature
      rfl
    | lookup object index =>
      rw [compile, rootForm]
      cases literalKeys index with
      | nil => rfl
      | cons key others => cases others <;> rfl
    | _ => rfl

/-! ## What stands for anything -/

def Form.referred? : Form → Option String
  | .reference name => some name
  | _ => none

/-- Whether the form is that of the schema that accepts everything, or of a lookup in an object for
which that schema is written. -/
def Form.fades (erased : TypeExpr → Bool) : Form → Bool
  | .anything => true
  | .field object _ => erased object
  | _ => false

/-- Whether nothing but the schema that accepts everything is left of the validator of a type, given
which declared types have deferred validators. -/
def standsForAnything (bound : List String) (deferred : String → Bool) (t : TypeExpr) : Bool :=
  (form bound t).fades fun object => (form bound object).referred?.any deferred

section Described

variable {f : Form} {e : Expr} (described : f.Describes ctx e)

include described

theorem lookupTarget?_of_describes : Expr.lookupTarget? e = none := by
  cases f with
  | anything | reference | field =>
    obtain rfl := described
    rfl
  | schema =>
    cases e with
    | member => contradiction
    | _ => rfl

theorem lookupTarget?_shape_of_describes :
    Expr.lookupTarget? (.member e "shape") = f.referred?.map ctx.validatorName := by
  cases f with
  | anything | reference | field =>
    obtain rfl := described
    rfl
  | schema =>
    cases e with
    | ident => contradiction
    | _ => rfl

theorem fades_of_describes (deferred : String → Bool) : Expr.fades deferred e =
    f.fades fun object => (Expr.lookupTarget? (.member (compile ctx object) "shape")).any deferred := by
  cases f with
  | anything | reference | field =>
    obtain rfl := described
    rfl
  | schema =>
    rw [Form.Describes] at described
    cases e with
    | zod method args =>
      rw [isSchema, Bool.not_eq_true'] at described
      rw [Expr.fades, described]
      rfl
    | call => rfl
    | _ => contradiction

end Described

theorem fades_compile (ctx : Context) (deferred : String → Bool) (t : TypeExpr) :
    Expr.fades deferred (compile ctx t) =
      standsForAnything ctx.parameters (deferred ∘ ctx.validatorName) t := by
  have erased : (fun object =>
      (Expr.lookupTarget? (.member (compile ctx object) "shape")).any deferred) =
        fun object => (form ctx.parameters object).referred?.any (deferred ∘ ctx.validatorName) := by
    funext object
    rw [lookupTarget?_shape_of_describes (form_describes ctx object), Option.any_map]
    rfl
  rw [fades_of_describes (form_describes ctx t), erased, standsForAnything]

end Schemata.Compilation
