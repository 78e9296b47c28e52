import Schemata.Proofs.Compilation.Selection
import Schemata.Proofs.Semantics.Type

/-! The names that a declaration refers to. Its validator mentions exactly the validators of these,
in this order and whatever its comments say, and has no other marks but that of an enumeration. -/
namespace Schemata.Compilation

open TypeScript Semantics

def referenced (bound : List String) (name : String) : List String :=
  if name ∈ bound ∨ name ∈ builtInNames then [] else [name]

mutual

/-- The names that the validator of a type refers to, given the type parameters. -/
def references (bound : List String) : TypeExpr → List String
  | .ref name => referenced bound name
  | .apply name args =>
    match argumentsUsed name with
    | some count => ((referencesEach bound args).take count).flatten
    | none => referenced bound name
  | .array type | .readonly type | .paren type => references bound type
  | .tuple elements => itemReferences bound elements ++ (restReferences bound elements).getD []
  | .union members | .inter members => (referencesEach bound members).flatten
  | .object members => fieldReferences bound members ++ (indexReferences bound members).getD []
  | .function signature => signatureReferences bound signature
  | .lookup object index =>
    match literalKeys index with
    | [_] => references bound object
    | _ => []
  | .keyword _ | .null | .undefined | .boolLiteral _ | .stringLiteral _ | .numberLiteral _ => []
  | .template | .other => []

def referencesEach (bound : List String) : List TypeExpr → List (List String)
  | [] => []
  | t :: ts => references bound t :: referencesEach bound ts

def itemReferences (bound : List String) : List TupleElement → List String
  | [] => []
  | .required _ type :: es => references bound type ++ itemReferences bound es
  | .optional _ type :: es => references bound type ++ itemReferences bound es
  | .rest (some _) type :: es => references bound type ++ itemReferences bound es
  | .rest none _ :: es => itemReferences bound es

def restReferences (bound : List String) : List TupleElement → Option (List String)
  | [] => none
  | .rest none type :: es => restReferences bound es <|> some (references bound type)
  | _ :: es => restReferences bound es

def fieldReferences (bound : List String) : List Member → List String
  | [] => []
  | .property key _ type _ :: ms =>
    if key.name?.isSome then optionalReferences bound type ++ fieldReferences bound ms
    else fieldReferences bound ms
  | .method key _ signature :: ms =>
    if key.name?.isSome then signatureReferences bound signature ++ fieldReferences bound ms
    else fieldReferences bound ms
  | .index _ :: ms => fieldReferences bound ms
  | .mapped :: ms => fieldReferences bound ms

def indexReferences (bound : List String) : List Member → Option (List String)
  | [] => none
  | .index value :: ms => indexReferences bound ms <|> some (references bound value)
  | .mapped :: ms => indexReferences bound ms <|> some []
  | .property _ _ _ _ :: ms => indexReferences bound ms
  | .method _ _ _ :: ms => indexReferences bound ms

def signatureReferences (bound : List String) : Signature → List String
  | .mk _ parameters result =>
    parameterReferences bound parameters ++ optionalReferences bound result

def parameterReferences (bound : List String) : List Parameter → List String
  | [] => []
  | .mk _ type :: ps => optionalReferences bound type ++ parameterReferences bound ps

def optionalReferences (bound : List String) : Option TypeExpr → List String
  | some type => references bound type
  | none => []

end

def Context.idents (ctx : Context) (names : List String) : List Expr :=
  names.map fun name => .ident (ctx.validatorName name)

variable {ctx : Context} {e : Expr} {es : List Expr}

@[simp] theorem idents_append (names others : List String) :
    ctx.idents (names ++ others) = ctx.idents names ++ ctx.idents others := List.map_append

theorem idents_getD (names : Option (List String)) :
    (names.map ctx.idents).getD [] = ctx.idents (names.getD []) := by
  cases names <;> rfl

theorem reference_eq_ident {name : String} (bound : name ∉ ctx.parameters)
    (free : name ∉ builtInNames) : reference ctx name = .ident (ctx.validatorName name) := by
  unfold reference
  rw [if_neg bound]
  split
  case h_7 => rfl
  all_goals exact absurd (by decide) free

theorem marks_reference (ctx : Context) (name : String) :
    (reference ctx name).marks = ctx.idents (referenced ctx.parameters name) := by
  by_cases bound : name ∈ ctx.parameters
  · rw [referenced, if_pos (.inl bound)]
    unfold reference
    rw [if_pos bound]
    rfl
  · by_cases builtIn : name ∈ builtInNames
    · rw [referenced, if_pos (.inr builtIn)]
      unfold reference
      rw [if_neg bound]
      simp only [builtInNames, listNames, List.cons_append, List.nil_append, List.mem_cons,
        List.not_mem_nil, or_false] at builtIn
      rcases builtIn with rfl | rfl | rfl | rfl | rfl | rfl <;> rfl
    · rw [reference_eq_ident bound builtIn, referenced, if_neg (not_or.mpr ⟨bound, builtIn⟩)]
      rfl

theorem itemReferences_flatMap (bound : List String) (es : List TupleElement) :
    itemReferences bound es = (es.filterMap itemType?).flatMap (references bound) := by
  induction es with
  | nil => rfl
  | cons element rest ih =>
    cases element with
    | required label type | optional label type =>
      rw [itemReferences, ih]
      rfl
    | rest label type =>
      cases label with
      | none => exact ih
      | some label =>
        rw [itemReferences, ih]
        rfl

theorem restReferences_last (bound : List String) (es : List TupleElement) :
    restReferences bound es = (es.filterMap openRestType?).getLast?.map (references bound) := by
  induction es with
  | nil => rfl
  | cons element rest ih =>
    cases element with
    | required | optional => exact ih
    | rest label type =>
      cases label with
      | some label => exact ih
      | none =>
        have shown : openRestType? (.rest none type) = some type := rfl
        rw [restReferences, ih, List.filterMap_cons_some shown, getLast?_cons_map]

theorem indexReferences_last (bound : List String) (ms : List Member) :
    indexReferences bound ms = (ms.filterMap indexType?).getLast?.map (references bound) := by
  induction ms with
  | nil => rfl
  | cons member rest ih =>
    cases member with
    | property | method => exact ih
    | index value =>
      have shown : indexType? (.index value) = some value := rfl
      rw [indexReferences, ih, List.filterMap_cons_some shown, getLast?_cons_map]
    | mapped =>
      have shown : indexType? .mapped = some .other := rfl
      rw [indexReferences, ih, List.filterMap_cons_some shown, getLast?_cons_map]
      rfl

theorem optionalReferences_flatMap (bound : List String) (type : Option TypeExpr) :
    optionalReferences bound type = type.toList.flatMap (references bound) := by
  cases type with
  | none => rfl
  | some type => exact (List.flatMap_singleton _ _).symm

theorem fieldReferences_flatMap (bound : List String) (ms : List Member) :
    fieldReferences bound ms = (ms.filterMap fieldType?).flatMap (references bound) := by
  induction ms with
  | nil => rfl
  | cons member rest ih =>
    cases member with
    | property key isOptional type doc =>
      rw [fieldReferences, List.filterMap_cons, fieldType?, optionalReferences_flatMap, ih]
      cases key.name? with
      | none => rfl
      | some name => cases type <;> simp
    | method key isOptional signature =>
      rw [fieldReferences, List.filterMap_cons, fieldType?, ih]
      cases key.name? with
      | none => rfl
      | some name => rfl
    | index | mapped => exact ih

theorem parameterReferences_flatMap (bound : List String) (ps : List Parameter) :
    parameterReferences bound ps = (ps.filterMap parameterType?).flatMap (references bound) := by
  induction ps with
  | nil => rfl
  | cons parameter rest ih =>
    cases parameter with
    | mk isOptional type =>
      rw [parameterReferences, optionalReferences_flatMap, ih, List.filterMap_cons, parameterType?]
      cases type <;> simp

theorem referencesEach_map (bound : List String) (ts : List TypeExpr) :
    referencesEach bound ts = ts.map (references bound) := by
  induction ts with
  | nil => rfl
  | cons t rest ih => rw [referencesEach, ih, List.map_cons]

/-- What a type refers to itself, beside its components. -/
def ownReferences (bound : List String) : TypeExpr → List String
  | .ref name => referenced bound name
  | .apply name _ => if (argumentsUsed name).isNone then referenced bound name else []
  | _ => []

/-- A type refers to what it names itself and to what its components refer to. -/
theorem references_components (bound : List String) (t : TypeExpr) : references bound t =
    ownReferences bound t ++ (components t).flatMap fun c => references bound c.2 := by
  cases t with
  | ref name => exact (List.append_nil _).symm
  | apply name args =>
    rw [references, ownReferences, components, referencesEach_map]
    cases argumentsUsed name with
    | none => simp
    | some count =>
      dsimp only
      rw [← List.map_take, ← take_indexed_types 0, List.map_map, List.flatMap_def]
      rfl
  | array type | readonly type | paren type => exact (List.flatMap_singleton _ _).symm
  | tuple elements =>
    rw [references, components, List.flatMap_append, flatMap_indexed, flatMap_getLast_indexed,
      itemReferences_flatMap, restReferences_last]
    cases (elements.filterMap openRestType?).getLast? <;> simp [ownReferences]
  | union members | inter members =>
    rw [references, components, flatMap_indexed, List.filterMap_some, referencesEach_map,
      ← List.flatMap_def]
    rfl
  | object members =>
    rw [references, components, List.flatMap_append, flatMap_indexed, flatMap_getLast_indexed,
      fieldReferences_flatMap, indexReferences_last]
    cases (members.filterMap indexType?).getLast? <;> simp [ownReferences]
  | function signature =>
    cases signature with
    | mk typeParameters parameters result =>
      rw [references, signatureReferences, components, List.flatMap_append, flatMap_indexed,
        parameterReferences_flatMap, optionalReferences_flatMap]
      cases result <;> simp [ownReferences]
  | lookup object index =>
    rw [references, components]
    cases literalKeys index with
    | nil => rfl
    | cons key others => cases others <;> simp [ownReferences]
  | _ => rfl

theorem isMark_application {name : String} {count : Nat} (kept : name ∉ transparentNames)
    (used : argumentsUsed name = some count) (ctx : Context) (args : List TypeExpr)
    (es : List Expr) : (application ctx name args es).isMark = false := by
  unfold application
  split
  case h_9 | h_10 => exact absurd (by decide) kept
  case h_13 =>
    unfold argumentsUsed at used
    split at used <;> contradiction
  all_goals rfl

theorem marks_ownNodes (ctx : Context) (t : TypeExpr) :
    (ownNodes ctx t).filter Expr.isMark = ctx.idents (ownReferences ctx.parameters t) := by
  have reference (name : String) : [Compilation.reference ctx name].filter Expr.isMark =
      ctx.idents (referenced ctx.parameters name) := by
    rw [← selected_reference Expr.plain_isMark]
    exact marks_reference ctx name
  cases t with
  | ref name => exact reference name
  | apply name args =>
    rw [ownNodes, ownReferences]
    cases used : argumentsUsed name with
    | none =>
      have kept : name ∉ transparentNames := by
        rintro transparent
        rcases List.mem_pair.mp transparent with rfl | rfl <;> contradiction
      rw [if_neg kept, compile, application_eq_reference used]
      exact reference name
    | some count =>
      split
      · rfl
      · rename_i kept
        rw [compile, List.filter_singleton, isMark_application kept used]
        rfl
  | lookup object index =>
    rw [ownNodes]
    split
    · rfl
    · rfl
  | _ => rfl

/-- The marks of a validator are those of the names that its type refers to. -/
theorem marks_compile (ctx : Context) (t : TypeExpr) :
    (compile ctx t).marks = ctx.idents (references ctx.parameters t) := by
  induction t using components_induction with
  | node t ih =>
    have below : ((components t).flatMap fun c => (compile ctx c.2).marks) =
        ctx.idents ((components t).flatMap fun c => references ctx.parameters c.2) := by
      rw [Context.idents, List.map_flatMap]
      exact List.flatMap_congr ih
    rw [references_components, idents_append, ← below, ← marks_ownNodes]
    exact selected_compile Expr.plain_isMark ctx t

theorem flatMap_marks_compile (ctx : Context) (ts : List TypeExpr) :
    (ts.flatMap fun t => (compile ctx t).marks) =
      ctx.idents (ts.flatMap (references ctx.parameters)) := by
  rw [Context.idents, List.map_flatMap]
  exact List.flatMap_congr fun t _ => marks_compile ctx t

theorem marks_compileFields (ctx : Context) (ms : List Member) :
    ((compileFields ctx ms).flatMap fun field => field.2.marks) =
      ctx.idents (fieldReferences ctx.parameters ms) := by
  rw [fieldReferences_flatMap, ← flatMap_marks_compile]
  exact compileFields_selected Expr.plain_isMark ms

theorem marks_compileIndex (ctx : Context) (ms : List Member) :
    (compileIndex ctx ms).map Expr.marks =
      (indexReferences ctx.parameters ms).map ctx.idents := by
  rw [compileIndex_eq, indexReferences_last, Option.map_map, Option.map_map]
  exact congrArg (Option.map · _) (funext fun t => marks_compile ctx t)

theorem marks_extending (bases : List Expr) (fields : List (String × Expr)) :
    (extending bases fields).marks =
      bases.flatMap Expr.marks ++ fields.flatMap fun field => field.2.marks := by
  have fold (others : List Expr) (base : Expr) :
      (others.foldl (fun acc other => .call acc "extend" [.member other "shape"]) base).marks =
        base.marks ++ others.flatMap Expr.marks := by
    induction others generalizing base with
    | nil => simp
    | cons other rest ih =>
      rw [List.foldl_cons, ih]
      simp
  cases bases with
  | nil => simp (disch := decide) [extending]
  | cons base others => simp [extending, fold]

/-- The names that a declaration refers to, those of its bases first. -/
def bodyReferences (bound : List String) : Body → List String
  | .alias type => references bound type
  | .interface bases members => (referencesEach bound bases).flatten ++
      (fieldReferences bound members ++ (indexReferences bound members).getD [])
  | .enum => []

/-- The declaration itself where its values are enumerated, and else what it refers to. -/
def bodyMarks (ctx : Context) (name : String) (body : Body) : List Expr :=
  if needsValue body then [.zod "nativeEnum" [.raw name]]
  else ctx.idents (bodyReferences ctx.parameters body)

theorem marks_compileBody (ctx : Context) (name : String) (body : Body) :
    (compileBody ctx name body).marks = bodyMarks ctx name body := by
  match body with
  | .alias type => exact marks_compile ctx type
  | .interface bases members =>
    have object : (extending (compileAll ctx bases) (compileFields ctx members)).marks =
        ctx.idents ((referencesEach ctx.parameters bases).flatten ++
          fieldReferences ctx.parameters members) := by
      rw [marks_extending, compileAll_eq, List.flatMap_map, flatMap_marks_compile,
        marks_compileFields, idents_append, referencesEach_map, ← List.flatMap_def]
    have index := marks_compileIndex ctx members
    simp only [compileBody, bodyMarks, needsValue, bodyReferences, Bool.false_eq_true, if_false,
      ← List.append_assoc]
    rw [idents_append, ← idents_getD, ← index, ← object]
    cases compileIndex ctx members with
    | none => simp
    | some value => simp
  | .enum => rfl

theorem marks_compileDeclaration (options : Options) (d : Declaration) :
    (compileDeclaration options d).marks = bodyMarks (options.context d) d.name d.body := by
  rw [← marks_compileBody]
  exact selected_field Expr.plain_isMark _ _ _ _

/-- The validators mentioned are those of the names referred to, whatever the comments say. -/
theorem mentions_compileDeclaration (options : Options) (d : Declaration) :
    (compileDeclaration options d).mentions =
      (bodyReferences d.typeParameters d.body).map options.dependencyName := by
  have idents (names : List String) :
      ((options.context d).idents names).flatMap Expr.identName =
        names.map options.dependencyName := by
    rw [Context.idents, List.flatMap_map]
    exact List.flatMap_pure_eq_map _ _
  rw [Expr.mentions_eq_marks, marks_compileDeclaration]
  cases d.body with
  | enum => rfl
  | _ => exact idents _

theorem enumNames_compileDeclaration (options : Options) (d : Declaration) :
    (compileDeclaration options d).enumNames = if needsValue d.body then [d.name] else [] := by
  rw [Expr.enumNames_eq_marks, marks_compileDeclaration, bodyMarks]
  split
  · rfl
  · rw [Context.idents, List.flatMap_map]
    exact List.flatMap_eq_nil_iff.mpr fun _ _ => rfl

/-- Only resolution writes `z.lazy`. -/
theorem compileDeclaration_eager (options : Options) (d : Declaration) :
    (compileDeclaration options d).isZod "lazy" = false := by
  have marks := marks_compileDeclaration options d
  cases init : compileDeclaration options d with
  | zod method args =>
    refine beq_eq_false_iff_ne.mpr ?_
    rintro rfl
    -- A lazy root would be a mark itself, but the marks are references and enumerations.
    have lazy : Expr.zod "lazy" args ∈ bodyMarks (options.context d) d.name d.body := by
      rw [← marks, init, Expr.marks_eq]
      exact List.mem_append_left _ (List.mem_filter.mpr ⟨List.mem_singleton_self _, rfl⟩)
    unfold bodyMarks at lazy
    split at lazy
    · simp at lazy
    · obtain ⟨_, _, same⟩ := List.mem_map.mp lazy
      contradiction
  | _ => rfl

end Schemata.Compilation
