import Schemata.Proofs.Compilation.Form

/-! The types that a declaration takes for object types: the interfaces that it extends, the arguments
of generic types that derive an object type from another one, and what a field is looked up in. A
validator takes the schema that accepts everything for an object schema exactly if one of these types
stands for anything. -/
namespace Schemata.Compilation

open TypeScript
open Schemata.Expr (takesForObject fades)

/-- The generic types whose validators call a method that only object schemas have. -/
def derivingNames : List String := ["Partial", "Required", "Pick", "Omit"]

/-- The type that a type takes for an object type. A generic type without arguments takes one that
accepts everything. -/
def operand? : TypeExpr → Option TypeExpr
  | .apply name args => if name ∈ derivingNames then some (args.headD .other) else none
  | .lookup object index => if (literalKeys index).length = 1 then some object else none
  | _ => none

/-- The types that the validator of a declaration is put together from. -/
def bodyTypes : Body → List TypeExpr
  | .alias type => [type]
  | .interface bases members => bases ++ [.object members]
  | .enum => []

def heritage : Body → List TypeExpr
  | .interface bases _ => bases
  | _ => []

/-- The type is extended by a declaration, or one of the types in it takes it for an object type. -/
def TakenForObject (body : Body) (t : TypeExpr) : Prop :=
  t ∈ heritage body ∨
    ∃ whole ∈ bodyTypes body, ∃ place u, Within whole place u ∧ operand? u = some t

variable {ctx : Context} {deferred : String → Bool} {t : TypeExpr}

theorem compile_deriving {name : String} (derives : name ∈ derivingNames) (ctx : Context)
    (args : List TypeExpr) : ∃ method, Expr.objectMethods.contains method = true ∧ ∃ more,
      compile ctx (.apply name args) = .call (compile ctx (args.headD .other)) method more := by
  have first : (compileAll ctx args).getD 0 .anything = compile ctx (args.headD .other) := by
    cases args <;> rfl
  rw [compile, ← first]
  simp only [derivingNames, List.mem_cons, List.not_mem_nil, or_false] at derives
  rcases derives with rfl | rfl | rfl | rfl
  · exact ⟨"partial", by decide, _, rfl⟩
  · exact ⟨"required", by decide, _, rfl⟩
  · exact ⟨"pick", by decide, _, rfl⟩
  · exact ⟨"omit", by decide, _, rfl⟩

theorem takesForObject_reference (ctx : Context) (stands : Expr → Bool) (name : String) :
    takesForObject stands (reference ctx name) = false := by
  unfold reference
  split
  · rfl
  · split <;> rfl

theorem takesForObject_application {name : String} (kept : name ∉ transparentNames)
    (other : name ∉ derivingNames) (ctx : Context) (stands : Expr → Bool) (args : List TypeExpr)
    (es : List Expr) : takesForObject stands (application ctx name args es) = false := by
  unfold application
  split
  case h_7 | h_8 | h_11 | h_12 => exact absurd (by decide) other
  case h_9 | h_10 => exact absurd (by decide) kept
  case h_13 => exact takesForObject_reference ctx stands name
  all_goals rfl

theorem ownNodes_takesForObject (ctx : Context) (deferred : String → Bool) (t : TypeExpr) :
    (ownNodes ctx t).filter (takesForObject (fades deferred)) = [] ↔
      ∀ operand, operand? t = some operand → fades deferred (compile ctx operand) = false := by
  cases t with
  | ref name => simp [ownNodes, operand?, takesForObject_reference]
  | apply name args =>
    by_cases derives : name ∈ derivingNames
    · have kept : name ∉ transparentNames := by
        revert name
        decide
      obtain ⟨method, special, more, compiled⟩ := compile_deriving derives ctx args
      rw [ownNodes, if_neg kept, compiled, operand?, if_pos derives, List.filter_singleton,
        takesForObject, special, Bool.true_and]
      simp only [Option.some.injEq, forall_eq']
      cases fades deferred (compile ctx (args.headD .other)) <;> simp
    · rw [ownNodes, operand?, if_neg derives]
      split
      · simp
      · rename_i kept
        simp [compile, takesForObject_application kept derives]
  | lookup object index =>
    rw [ownNodes, operand?]
    cases literalKeys index with
    | nil => simp
    | cons key others =>
      cases others with
      | cons => simp
      | nil =>
        -- What is looked up in the fields of the object is no lookup into a validator itself.
        have outer : fades deferred (.member (compile ctx object) "shape") = false := by
          rw [fades, Expr.isErased, Expr.isDeferredLookup,
            lookupTarget?_of_describes (form_describes ctx object)]
          rfl
        simp [takesForObject, outer, Expr.shapeName]
  | _ => simp [ownNodes, operand?]

theorem selected_compile_takesForObject (ctx : Context) (deferred : String → Bool) (t : TypeExpr) :
    (compile ctx t).selected (takesForObject (fades deferred)) = [] ↔
      ∀ place u, Within t place u → ∀ operand, operand? u = some operand →
        fades deferred (compile ctx operand) = false := by
  rw [selected_compile_eq_nil_iff (Expr.plain_takesForObject _)]
  exact forall₃_congr fun _ u _ => ownNodes_takesForObject ctx deferred u

/-! ## Declarations -/

section Extending

variable {stands : Expr → Bool} {fields : List (String × Expr)}

/-- Whether an expression may be extended, and takes nothing for an object itself. -/
def Extensible (stands : Expr → Bool) (e : Expr) : Prop :=
  stands e = false ∧ e.selected (takesForObject stands) = []

theorem extensible_extend (calls : ∀ target method args, stands (.call target method args) = false)
    (base other : Expr) : Extensible stands (.call base "extend" [.member other "shape"]) ↔
      Extensible stands base ∧ Extensible stands other := by
  have method : Expr.objectMethods.contains "extend" = true := by decide
  have shape : (Expr.member other "shape").selected (takesForObject stands) = [] ↔
      Extensible stands other := by
    rw [Expr.selected_eq_nil, Extensible]
    simp [takesForObject, Expr.children, Expr.shapeName]
  rw [Extensible, Extensible, Expr.selected_eq_nil, takesForObject, method, calls, ← shape]
  simp [Expr.children, and_assoc]

theorem extensible_foldl (calls : ∀ target method args, stands (.call target method args) = false)
    (base : Expr) (others : List Expr) : Extensible stands
      (others.foldl (fun acc other => .call acc "extend" [.member other "shape"]) base) ↔
        ∀ e ∈ base :: others, Extensible stands e := by
  induction others generalizing base with
  | nil => simp
  | cons other rest ih =>
    rw [List.foldl_cons, ih, List.forall_mem_cons, extensible_extend calls, List.forall_mem_cons,
      List.forall_mem_cons, and_assoc]

theorem selected_extending_eq_nil_iff
    (calls : ∀ target method args, stands (.call target method args) = false) (bases : List Expr) :
    (extending bases fields).selected (takesForObject stands) = [] ↔
      (∀ base ∈ bases, Extensible stands base) ∧
        ∀ field ∈ fields, field.2.selected (takesForObject stands) = [] := by
  have plain := Expr.plain_takesForObject stands
  have object : (Expr.object fields).selected (takesForObject stands) = [] ↔
      ∀ field ∈ fields, field.2.selected (takesForObject stands) = [] := by
    rw [plain.selected_object, List.flatMap_eq_nil_iff]
  cases bases with
  | nil =>
    rw [extending, plain.selected_zod (by decide), List.flatMap_singleton, object]
    simp
  | cons base others =>
    have method : Expr.objectMethods.contains "extend" = true := by decide
    rw [← extensible_foldl calls, extending, Expr.selected_eq_nil, takesForObject, method,
      Extensible, ← object]
    simp [Expr.children, and_assoc]

end Extending

theorem forall_takenForObject_iff {body : Body} {P : TypeExpr → Prop} :
    (∀ t, TakenForObject body t → P t) ↔ (∀ t ∈ heritage body, P t) ∧
      ∀ whole ∈ bodyTypes body, ∀ place u, Within whole place u →
        ∀ t, operand? u = some t → P t := by
  constructor
  · intro all
    exact ⟨fun t extended => all t (.inl extended), fun whole listed place u inside t found =>
      all t (.inr ⟨whole, listed, place, u, inside, found⟩)⟩
  · rintro ⟨bases, operands⟩ t (extended | ⟨whole, listed, place, u, inside, found⟩)
    · exact bases t extended
    · exact operands whole listed place u inside t found

theorem selected_interface_eq_nil_iff (ctx : Context) (deferred : String → Bool) (name : String)
    (bases : List TypeExpr) (members : List Member) :
    (compileBody ctx name (.interface bases members)).selected (takesForObject (fades deferred)) = [] ↔
      (∀ base ∈ bases, Extensible (fades deferred) (compile ctx base)) ∧
        (compile ctx (.object members)).selected (takesForObject (fades deferred)) = [] := by
  have plain := Expr.plain_takesForObject (fades deferred)
  have catchall : Expr.objectMethods.contains "catchall" = false := by decide
  have object : (extending (compileAll ctx bases) (compileFields ctx members)).selected
      (takesForObject (fades deferred)) = [] ↔
        (∀ base ∈ bases, Extensible (fades deferred) (compile ctx base)) ∧
          ∀ field ∈ compileFields ctx members,
            field.2.selected (takesForObject (fades deferred)) = [] := by
    rw [selected_extending_eq_nil_iff fun _ _ _ => rfl, compileAll_eq, List.forall_mem_map]
  rw [compile, selected_objectOf plain, List.append_eq_nil_iff, List.flatMap_eq_nil_iff,
    ← and_assoc, ← object, compileBody]
  cases compileIndex ctx members with
  | none => simp
  | some value => simp [plain.selected_call catchall]

/-- Nothing is taken for an object schema but what is compiled from types that are taken for object
types. -/
theorem selected_compileBody_eq_nil_iff (ctx : Context) (deferred : String → Bool) (name : String)
    (body : Body) : (compileBody ctx name body).selected (takesForObject (fades deferred)) = [] ↔
      ∀ t, TakenForObject body t → fades deferred (compile ctx t) = false := by
  have whole_iff (whole : TypeExpr) := selected_compile_takesForObject ctx deferred whole
  rw [forall_takenForObject_iff]
  simp only [← whole_iff]
  rcases body with type | ⟨bases, members⟩ | _
  · simp [compileBody, heritage, bodyTypes]
  · dsimp only [heritage, bodyTypes]
    rw [selected_interface_eq_nil_iff, List.forall_mem_append, List.forall_mem_singleton,
      ← and_assoc, ← forall₂_and]
    rfl
  · have nothing {P : TypeExpr → Prop} : ∀ t ∈ ([] : List TypeExpr), P t :=
      fun _ member => absurd member List.not_mem_nil
    exact ⟨fun _ => ⟨nothing, nothing⟩, fun _ => rfl⟩

end Schemata.Compilation
