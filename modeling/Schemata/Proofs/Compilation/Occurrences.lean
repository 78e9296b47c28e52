import Schemata.Proofs.Compilation.References

/-! The types that a declaration writes by their names, each at its place: with the type parameters
of the functions and methods around it, and with what becomes of it. A type that gives way to a
later one, and a name that is bound or has a meaning of its own, leaves nothing in the validator;
the other occurrences are its references, in order. -/
namespace Schemata.Compilation

open TypeScript Semantics

/-- A name in the place of a type, where compiling the declaration comes to. -/
structure Occurrence where
  name : String
  /-- Whether type arguments stand behind it. -/
  applied : Bool
  /-- The type parameters of the functions and methods that it stands in. -/
  scope : List String := []
  /-- Whether it stands in an index or a rest element that a later one replaces. -/
  replaced : Bool := false
  deriving DecidableEq, Repr

namespace Occurrence

/-- The occurrence seen from outside a function with these type parameters. -/
def under (typeParameters : List String) (o : Occurrence) : Occurrence :=
  { o with scope := typeParameters ++ o.scope }

/-- The occurrence seen from where a later type may replace the one it stands in. -/
def replacedIf (later : Bool) (o : Occurrence) : Occurrence :=
  { o with replaced := later || o.replaced }

/-- Whether the name has a validator of its own where it stands. -/
def isBuiltIn (o : Occurrence) : Bool :=
  builtInNames.contains o.name || (o.applied && (argumentsUsed o.name).isSome)

/-- Whether the occurrence is a reference in the validator of a declaration with these type
parameters. -/
def refers (parameters : List String) (o : Occurrence) : Bool :=
  !o.replaced && !parameters.contains o.name && !o.isBuiltIn

/-- The type that is written at the occurrence. -/
def Writes (o : Occurrence) (t : TypeExpr) : Prop :=
  if o.applied then ∃ args, t = .apply o.name args else t = .ref o.name

end Occurrence

def isOpenRest : TupleElement → Bool
  | .rest none _ => true
  | _ => false

def isIndex : Member → Bool
  | .index _ | .mapped => true
  | _ => false

mutual

def occurrences : TypeExpr → List Occurrence
  | .ref name => [{ name, applied := false }]
  | .apply name args => { name, applied := true } ::
    match argumentsUsed name with
    | some count => ((occurrencesEach args).take count).flatten
    | none => []
  | .array type | .readonly type | .paren type => occurrences type
  | .tuple elements => itemOccurrences elements ++ restOccurrences elements
  | .union members | .inter members => (occurrencesEach members).flatten
  | .object members => fieldOccurrences members ++ indexOccurrences members
  | .function signature => signatureOccurrences signature
  | .lookup object index =>
    match literalKeys index with
    | [_] => occurrences object
    | _ => []
  | .keyword _ | .null | .undefined | .boolLiteral _ | .stringLiteral _ | .numberLiteral _ => []
  | .template | .other => []

def occurrencesEach : List TypeExpr → List (List Occurrence)
  | [] => []
  | t :: ts => occurrences t :: occurrencesEach ts

def itemOccurrences : List TupleElement → List Occurrence
  | [] => []
  | .required _ type :: es => occurrences type ++ itemOccurrences es
  | .optional _ type :: es => occurrences type ++ itemOccurrences es
  | .rest (some _) type :: es => occurrences type ++ itemOccurrences es
  | .rest none _ :: es => itemOccurrences es

/-- Of several rest elements without a label the last one counts. -/
def restOccurrences : List TupleElement → List Occurrence
  | [] => []
  | .rest none type :: es =>
    (occurrences type).map (.replacedIf (es.any isOpenRest)) ++ restOccurrences es
  | _ :: es => restOccurrences es

def fieldOccurrences : List Member → List Occurrence
  | [] => []
  | .property key _ type _ :: ms =>
    if key.name?.isSome then optionalOccurrences type ++ fieldOccurrences ms
    else fieldOccurrences ms
  | .method key _ signature :: ms =>
    if key.name?.isSome then signatureOccurrences signature ++ fieldOccurrences ms
    else fieldOccurrences ms
  | .index _ :: ms => fieldOccurrences ms
  | .mapped :: ms => fieldOccurrences ms

/-- Of several indices the last one counts. -/
def indexOccurrences : List Member → List Occurrence
  | [] => []
  | .index value :: ms =>
    (occurrences value).map (.replacedIf (ms.any isIndex)) ++ indexOccurrences ms
  | .mapped :: ms => indexOccurrences ms
  | .property _ _ _ _ :: ms => indexOccurrences ms
  | .method _ _ _ :: ms => indexOccurrences ms

def signatureOccurrences : Signature → List Occurrence
  | .mk typeParameters parameters result =>
    (parameterOccurrences parameters ++ optionalOccurrences result).map (.under typeParameters)

def parameterOccurrences : List Parameter → List Occurrence
  | [] => []
  | .mk _ type :: ps => optionalOccurrences type ++ parameterOccurrences ps

def optionalOccurrences : Option TypeExpr → List Occurrence
  | some type => occurrences type
  | none => []

end

def bodyOccurrences : Body → List Occurrence
  | .alias type => occurrences type
  | .interface bases members =>
    (occurrencesEach bases).flatten ++ (fieldOccurrences members ++ indexOccurrences members)
  | .enum => []

/-- The names of the occurrences that are references. -/
def referring (bound : List String) (os : List Occurrence) : List String :=
  (os.filter (Occurrence.refers bound)).map (·.name)

variable {bound : List String} {o : Occurrence} {os : List Occurrence}

@[simp] theorem referring_nil : referring bound [] = [] := rfl

@[simp] theorem referring_append (others : List Occurrence) :
    referring bound (os ++ others) = referring bound os ++ referring bound others := by
  simp [referring]

theorem referring_flatten (lists : List (List Occurrence)) :
    referring bound lists.flatten = (lists.map (referring bound)).flatten := by
  simp [referring, List.filter_flatten, List.map_flatten]
  rfl

/-- The type parameters around a name are not looked at. -/
@[simp] theorem referring_under (typeParameters : List String) :
    referring bound (os.map (.under typeParameters)) = referring bound os := by
  rw [referring, referring, List.filter_map, List.map_map]
  rfl

@[simp] theorem referring_replaced : referring bound (os.map (.replacedIf true)) = [] := by
  rw [referring, List.filter_map]
  simp [Occurrence.refers, Occurrence.replacedIf, Function.comp_def]

@[simp] theorem referring_kept :
    referring bound (os.map (.replacedIf false)) = referring bound os := by
  have same : Occurrence.replacedIf false = id := by
    funext o
    simp [Occurrence.replacedIf]
  rw [same, List.map_id]

theorem referring_bare (name : String) :
    referring bound [{ name, applied := false }] = referenced bound name := by
  rw [referring, referenced]
  by_cases outside : name ∈ bound
  · simp [Occurrence.refers, outside]
  · by_cases builtIn : name ∈ builtInNames
    · simp [Occurrence.refers, Occurrence.isBuiltIn, builtIn]
    · simp [Occurrence.refers, Occurrence.isBuiltIn, outside, builtIn]

theorem referring_applied (name : String) : referring bound [{ name, applied := true }] =
    if (argumentsUsed name).isSome then [] else referenced bound name := by
  by_cases used : (argumentsUsed name).isSome
  · simp [referring, Occurrence.refers, Occurrence.isBuiltIn, used]
  · -- Behind no name of its own an applied one is judged like a bare one.
    have same : Occurrence.refers bound { name, applied := true } =
        Occurrence.refers bound { name, applied := false } := by
      simp [Occurrence.refers, Occurrence.isBuiltIn, used]
    rw [if_neg used, ← referring_bare, referring, referring, List.filter_cons, List.filter_cons,
      same]
    split
    · rfl
    · rfl

/-! ## References are occurrences -/

theorem restOccurrences_eq_nil {es : List TupleElement} (none : es.any isOpenRest = false) :
    restOccurrences es = [] := by
  induction es with
  | nil => rfl
  | cons element rest ih =>
    rw [List.any_cons, Bool.or_eq_false_iff] at none
    cases element with
    | rest label type =>
      cases label with
      | none => exact absurd none.1 (by simp [isOpenRest])
      | some label => exact ih none.2
    | _ => exact ih none.2

theorem indexOccurrences_eq_nil {ms : List Member} (none : ms.any isIndex = false) :
    indexOccurrences ms = [] := by
  induction ms with
  | nil => rfl
  | cons member rest ih =>
    rw [List.any_cons, Bool.or_eq_false_iff] at none
    cases member with
    | index | mapped => exact absurd none.1 (by simp [isIndex])
    | _ => exact ih none.2

/-- What counts of several types of which the last one does. -/
theorem orElse_referring {names : Option (List String)} (later : Bool) (more : List Occurrence)
    (others : names = if later then some (referring bound os) else none)
    (nothing : later = false → os = []) :
    (names <|> some (referring bound more)) =
      some (referring bound (more.map (.replacedIf later) ++ os)) := by
  cases later with
  | true => simp [others]
  | false => simp [others, nothing rfl]

mutual

theorem references_eq (bound : List String) : ∀ t : TypeExpr,
    references bound t = referring bound (occurrences t)
  | .ref name => (referring_bare name).symm
  | .apply name args => by
    rw [references, occurrences, ← List.singleton_append, referring_append, referring_applied]
    cases argumentsUsed name with
    | none => simp
    | some count => simp [referring_flatten, referencesEach_eq bound args]
  | .array type | .readonly type | .paren type => references_eq bound type
  | .tuple elements => by
    rw [references, occurrences, referring_append, itemReferences_eq bound elements,
      restReferences_eq bound elements]
    cases later : elements.any isOpenRest with
    | true => simp
    | false => simp [restOccurrences_eq_nil later]
  | .union members | .inter members => by
    rw [references, occurrences, referring_flatten, referencesEach_eq bound members]
  | .object members => by
    rw [references, occurrences, referring_append, fieldReferences_eq bound members,
      indexReferences_eq bound members]
    cases later : members.any isIndex with
    | true => simp
    | false => simp [indexOccurrences_eq_nil later]
  | .function signature => signatureReferences_eq bound signature
  | .lookup object index => by
    rw [references, occurrences]
    cases literalKeys index with
    | nil => rfl
    | cons key others =>
      cases others with
      | nil => exact references_eq bound object
      | cons => rfl
  | .keyword _ | .null | .undefined | .boolLiteral _ | .stringLiteral _ | .numberLiteral _ => rfl
  | .template | .other => rfl

theorem referencesEach_eq (bound : List String) : ∀ ts : List TypeExpr,
    referencesEach bound ts = (occurrencesEach ts).map (referring bound)
  | [] => rfl
  | t :: ts => by
    rw [referencesEach, occurrencesEach, List.map_cons, references_eq bound t,
      referencesEach_eq bound ts]

theorem itemReferences_eq (bound : List String) : ∀ es : List TupleElement,
    itemReferences bound es = referring bound (itemOccurrences es)
  | [] => rfl
  | .required _ type :: es | .optional _ type :: es | .rest (some _) type :: es => by
    rw [itemReferences, itemOccurrences, referring_append, references_eq bound type,
      itemReferences_eq bound es]
  | .rest none _ :: es => itemReferences_eq bound es

theorem restReferences_eq (bound : List String) : ∀ es : List TupleElement,
    restReferences bound es =
      if es.any isOpenRest then some (referring bound (restOccurrences es)) else none
  | [] => rfl
  | .rest none type :: es => by
    rw [restReferences, restOccurrences, references_eq bound type]
    exact orElse_referring _ _ (restReferences_eq bound es) restOccurrences_eq_nil
  | .rest (some _) _ :: es | .required _ _ :: es | .optional _ _ :: es => restReferences_eq bound es

theorem fieldReferences_eq (bound : List String) : ∀ ms : List Member,
    fieldReferences bound ms = referring bound (fieldOccurrences ms)
  | [] => rfl
  | .property key _ type _ :: ms => by
    rw [fieldReferences, fieldOccurrences]
    split
    · rw [referring_append, optionalReferences_eq bound type, fieldReferences_eq bound ms]
    · exact fieldReferences_eq bound ms
  | .method key _ signature :: ms => by
    rw [fieldReferences, fieldOccurrences]
    split
    · rw [referring_append, signatureReferences_eq bound signature, fieldReferences_eq bound ms]
    · exact fieldReferences_eq bound ms
  | .index _ :: ms | .mapped :: ms => fieldReferences_eq bound ms

theorem indexReferences_eq (bound : List String) : ∀ ms : List Member,
    indexReferences bound ms =
      if ms.any isIndex then some (referring bound (indexOccurrences ms)) else none
  | [] => rfl
  | .index value :: ms => by
    rw [indexReferences, indexOccurrences, references_eq bound value]
    exact orElse_referring _ _ (indexReferences_eq bound ms) indexOccurrences_eq_nil
  | .mapped :: ms => orElse_referring _ [] (indexReferences_eq bound ms) indexOccurrences_eq_nil
  | .property _ _ _ _ :: ms | .method _ _ _ :: ms => indexReferences_eq bound ms

theorem signatureReferences_eq (bound : List String) : ∀ s : Signature,
    signatureReferences bound s = referring bound (signatureOccurrences s)
  | .mk typeParameters parameters result => by
    rw [signatureReferences, signatureOccurrences, referring_under, referring_append,
      parameterReferences_eq bound parameters, optionalReferences_eq bound result]

theorem parameterReferences_eq (bound : List String) : ∀ ps : List Parameter,
    parameterReferences bound ps = referring bound (parameterOccurrences ps)
  | [] => rfl
  | .mk _ type :: ps => by
    rw [parameterReferences, parameterOccurrences, referring_append,
      optionalReferences_eq bound type, parameterReferences_eq bound ps]

theorem optionalReferences_eq (bound : List String) : ∀ t : Option TypeExpr,
    optionalReferences bound t = referring bound (optionalOccurrences t)
  | some type => references_eq bound type
  | none => rfl

end

theorem bodyReferences_eq (bound : List String) (body : Body) :
    bodyReferences bound body = referring bound (bodyOccurrences body) := by
  match body with
  | .alias type => exact references_eq bound type
  | .interface bases members =>
    have object := references_eq bound (.object members)
    rw [references, occurrences] at object
    rw [bodyReferences, bodyOccurrences, referring_append, referring_flatten,
      referencesEach_eq bound bases, object]
  | .enum => rfl

/-- A validator mentions exactly the validators of the references, in order. -/
theorem mentions_eq_occurrences (options : Options) (d : Declaration) :
    (compileDeclaration options d).mentions =
      ((bodyOccurrences d.body).filter (Occurrence.refers d.typeParameters)).map
        fun o => options.dependencyName o.name := by
  rw [mentions_compileDeclaration, bodyReferences_eq, referring, List.map_map]
  rfl

end Schemata.Compilation
