import Schemata.Proofs.Compilation.Components
import Schemata.Proofs.Compilation.Documentation

/-! A validator shows what it was put together from: builders give equal validators for parts that
are laid out alike only if the parts are equal. -/
namespace Schemata.Compilation

open TypeScript DocComment

variable {ctx : Context} {e e' : Expr} {es es' : List Expr}

theorem callIf_inj {condition : Bool} {method : String} :
    callIf condition method e' = callIf condition method e ↔ e' = e := by
  cases condition with
  | false => exact Iff.rfl
  | true => simp [callIf]

theorem unionOf_inj (lengths : es'.length = es.length) : unionOf es' = unionOf es ↔ es' = es := by
  constructor
  · intro same
    match es, es', lengths with
    | [e], [e'], _ => exact congrArg (fun e => [e]) same
    | [], [], _ => rfl
    | e :: f :: rest, e' :: f' :: rest', _ => simpa [unionOf] using same
  · exact congrArg unionOf

theorem unionWith_inj {hasNull hasUndefined : Bool} {concrete concrete' all all' : List Expr}
    (concreteLengths : concrete'.length = concrete.length) (lengths : all'.length = all.length) :
    unionWith hasNull hasUndefined concrete' all' = unionWith hasNull hasUndefined concrete all ↔
      if concrete.isEmpty then all' = all else concrete' = concrete := by
  have empty : concrete'.isEmpty = concrete.isEmpty := by
    rw [Bool.eq_iff_iff, List.isEmpty_iff_length_eq_zero, List.isEmpty_iff_length_eq_zero,
      concreteLengths]
  unfold unionWith
  rw [empty]
  split
  · exact unionOf_inj lengths
  · rw [callIf_inj, callIf_inj, unionOf_inj concreteLengths]

theorem foldl_and_inj (lengths : es'.length = es.length) :
    es'.foldl (fun acc next => .call acc "and" [next]) e' =
      es.foldl (fun acc next => Expr.call acc "and" [next]) e ↔ e' = e ∧ es' = es := by
  induction es generalizing es' e e' with
  | nil => simp [List.length_eq_zero_iff.mp lengths]
  | cons next rest ih =>
    match es', lengths with
    | next' :: rest', lengths =>
      rw [List.foldl_cons, List.foldl_cons, ih (Nat.succ.inj lengths), Expr.call.injEq,
        List.cons.injEq, List.cons.injEq]
      simp [and_assoc]

theorem intersectionOf_inj (lengths : es'.length = es.length) :
    intersectionOf es' = intersectionOf es ↔ es' = es := by
  match es, es', lengths with
  | [], [], _ => simp
  | e :: rest, e' :: rest', lengths =>
    rw [intersectionOf, intersectionOf, foldl_and_inj (Nat.succ.inj lengths), List.cons.injEq]

theorem objectOf_inj {fields fields' : List (String × Expr)} {index index' : Option Expr}
    (empty : fields'.isEmpty = fields.isEmpty) (indexed : index'.isSome = index.isSome) :
    objectOf fields' index' = objectOf fields index ↔ fields' = fields ∧ index' = index := by
  cases index with
  | none =>
    obtain rfl := Option.isNone_iff_eq_none.mp (Option.isSome_eq_false_iff.mp indexed)
    simp [objectOf]
  | some value =>
    obtain ⟨value', rfl⟩ := Option.isSome_iff_exists.mp indexed
    rw [objectOf, objectOf, empty]
    split
    · rename_i none
      have both : fields' = fields := by
        rw [List.isEmpty_iff.mp none, List.isEmpty_iff.mp (empty.trans none)]
      simp [both]
    · simp [and_comm]

theorem compile_tuple_inj {elements elements' : List TupleElement} :
    compile ctx (.tuple elements') = compile ctx (.tuple elements) ↔
      compileItems ctx elements' = compileItems ctx elements ∧
        compileRest ctx elements' = compileRest ctx elements := by
  dsimp only [compile]
  cases compileRest ctx elements <;> cases compileRest ctx elements' <;> simp

theorem field_inj {isOptional : Bool} {doc : Option String} :
    field ctx isOptional doc e' = field ctx isOptional doc e ↔ e' = e := by
  rw [field_eq, field_eq]
  cases lastDefault (appliedTags ctx doc) with
  | none => exact callIf_inj.trans (chain_inj _)
  | some value => simp [Refined.applyDefault, callIf_inj, chain_inj]

theorem take_one_inj (lengths : es'.length = es.length) :
    es'.take 1 = es.take 1 ↔ es'.getD 0 .anything = es.getD 0 .anything := by
  match es, es', lengths with
  | [], [], _ => simp
  | e :: rest, e' :: rest', _ => simp

theorem take_two_inj (lengths : es'.length = es.length) : es'.take 2 = es.take 2 ↔
    es'.getD 0 .anything = es.getD 0 .anything ∧ es'.getD 1 .anything = es.getD 1 .anything := by
  match es, es', lengths with
  | [], [], _ => simp
  | [e], [e'], _ => simp
  | e :: f :: rest, e' :: f' :: rest', _ => simp

/-- Applications with the same keys are equal exactly if the arguments that they use are. -/
theorem application_inj {name : String} {args args' : List TypeExpr}
    (lengths : es'.length = es.length)
    (keys : (args'[1]?).elim [] literalKeys = (args[1]?).elim [] literalKeys) :
    application ctx name args' es' = application ctx name args es ↔
      es'.take ((argumentsUsed name).getD 0) = es.take ((argumentsUsed name).getD 0) := by
  cases used : argumentsUsed name with
  | none => simp [application_eq_reference used]
  | some count =>
    unfold argumentsUsed at used
    split at used
    case h_13 => contradiction
    all_goals
      obtain rfl := Option.some.inj used
      simp [application, take_one_inj lengths, take_two_inj lengths, keys]

end Schemata.Compilation
