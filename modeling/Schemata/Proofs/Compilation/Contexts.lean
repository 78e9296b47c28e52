import Schemata.Proofs.Compilation.Injectivity

/-! Types and declarations around a place. Two types of one kind that stand at the place have the same
effect on the whole exactly if their validators are the same or the place does not count. Only the
type of a rest element is looked into there, instead of being compiled. -/
namespace Schemata.Compilation

open TypeScript

/-- A signature without one of its types. -/
inductive SignatureFrame where
  | parameter (typeParameters : List String) (before : List Parameter) (isOptional : Bool)
    (after : List Parameter) (returned : Option TypeExpr)
  | result (typeParameters : List String) (parameters : List Parameter)

/-- A member without its type or without a type of its signature. -/
inductive MemberFrame where
  | property (key : Key) (isOptional : Bool) (doc : Option String)
  | method (key : Key) (isOptional : Bool) (signature : SignatureFrame)
  | index

/-- A tuple element without its type. -/
inductive ElementFrame where
  | required (label : Option String)
  | optional (label : Option String)
  | rest (label : Option String)

/-- A type without one of the types that it is written with. -/
inductive Frame where
  | argument (name : String) (before after : List TypeExpr)
  | array
  | readonly
  | paren
  | element (before : List TupleElement) (frame : ElementFrame) (after : List TupleElement)
  | union (before after : List TypeExpr)
  | inter (before after : List TypeExpr)
  | member (before : List Member) (frame : MemberFrame) (after : List Member)
  | function (signature : SignatureFrame)
  | lookedUp (keys : TypeExpr)
  | keys (object : TypeExpr)

/-- What stands under a declared name, without one of its types. -/
inductive BodyFrame where
  | aliased
  | base (before after : List TypeExpr) (members : List Member)
  | member (bases : List TypeExpr) (before : List Member) (frame : MemberFrame) (after : List Member)

namespace SignatureFrame

def fill (t : TypeExpr) : SignatureFrame → Signature
  | .parameter typeParameters before isOptional after returned =>
    .mk typeParameters (before ++ .mk isOptional (some t) :: after) returned
  | .result typeParameters parameters => .mk typeParameters parameters (some t)

end SignatureFrame

namespace MemberFrame

def fill (t : TypeExpr) : MemberFrame → Member
  | .property key isOptional doc => .property key isOptional (some t) doc
  | .method key isOptional signature => .method key isOptional (signature.fill t)
  | .index => .index t

/-- Whether a member counts in front of others: its key is read, or it is the last index. -/
def Counts (after : List Member) : MemberFrame → Prop
  | .property key _ _ | .method key _ _ => key.name?.isSome = true
  | .index => after.filterMap indexType? = []

end MemberFrame

namespace ElementFrame

def fill (t : TypeExpr) : ElementFrame → TupleElement
  | .required label => .required label t
  | .optional label => .optional label t
  | .rest label => .rest label t

/-- Of the rest elements without a label, the last one counts. -/
def Counts (after : List TupleElement) : ElementFrame → Prop
  | .rest none => after.filterMap openRestType? = []
  | _ => True

end ElementFrame

namespace Frame

def fill (t : TypeExpr) : Frame → TypeExpr
  | .argument name before after => .apply name (before ++ t :: after)
  | .array => .array t
  | .readonly => .readonly t
  | .paren => .paren t
  | .element before frame after => .tuple (before ++ frame.fill t :: after)
  | .union before after => .union (before ++ t :: after)
  | .inter before after => .inter (before ++ t :: after)
  | .member before frame after => .object (before ++ frame.fill t :: after)
  | .function signature => .function (signature.fill t)
  | .lookedUp index => .lookup t index
  | .keys object => .lookup object t

/-- Whether the validator of a type is put together from what stands at the place. -/
def Counts : Frame → Prop
  | .argument name before _ => before.length < (argumentsUsed name).getD 0
  | .element _ frame after => frame.Counts after
  | .member _ frame after => frame.Counts after
  | .lookedUp index => (literalKeys index).length = 1
  | .keys _ => False
  | _ => True

/-- Whether the place is a rest element without a label. -/
def isOpenRest : Frame → Bool
  | .element _ (.rest none) _ => true
  | _ => false

/-- The type whose validator is taken for the one at the place. -/
def shown (frame : Frame) (t : TypeExpr) : TypeExpr :=
  if frame.isOpenRest then restElement t else t

end Frame

/-- A type at a place within others, which are given from outside to inside. -/
def plug (frames : List Frame) (t : TypeExpr) : TypeExpr := frames.foldr (fun frame u => frame.fill u) t

namespace BodyFrame

def fill (t : TypeExpr) : BodyFrame → Body
  | .aliased => .alias t
  | .base before after members => .interface (before ++ t :: after) members
  | .member bases before frame after => .interface bases (before ++ frame.fill t :: after)

def Counts : BodyFrame → Prop
  | .member _ _ frame after => frame.Counts after
  | _ => True

end BodyFrame

/-- The types are alike where they are not compiled but looked at. -/
structure SameKind (t u : TypeExpr) : Prop where
  keys : literalKeys t = literalKeys u
  isNull : isNull t = isNull u
  isUndefined : isUndefined t = isUndefined u

variable {ctx : Context} {t u : TypeExpr}

/-! ## Lists around a place -/

theorem append_cons_inj {α : Type} {before after : List α} {x y : α} :
    before ++ x :: after = before ++ y :: after ↔ x = y := by
  simp

theorem take_append_cons_inj {α : Type} {before after : List α} {x y : α} (count : Nat) :
    (before ++ x :: after).take count = (before ++ y :: after).take count ↔
      (before.length < count → x = y) := by
  rw [List.take_append, List.take_append, List.append_cancel_left_eq]
  cases places : count - before.length with
  | zero => simp [Nat.not_lt.mpr (Nat.le_of_sub_eq_zero places)]
  | succ n => simp [Nat.lt_of_sub_eq_succ places]

theorem compileAll_place (before after : List TypeExpr) : compileAll ctx (before ++ t :: after) =
    compileAll ctx before ++ compile ctx t :: compileAll ctx after := by
  simp [compileAll_eq]

theorem compileConcrete_append (ts us : List TypeExpr) :
    compileConcrete ctx (ts ++ us) = compileConcrete ctx ts ++ compileConcrete ctx us := by
  induction ts with
  | nil => rfl
  | cons t rest ih =>
    rw [List.cons_append, compileConcrete, compileConcrete, ih]
    split <;> rfl

theorem compileItems_append (es fs : List TupleElement) :
    compileItems ctx (es ++ fs) = compileItems ctx es ++ compileItems ctx fs := by
  induction es with
  | nil => rfl
  | cons element rest ih =>
    cases element with
    | required label type | optional label type => exact congrArg (_ :: ·) ih
    | rest label type =>
      cases label with
      | none => exact ih
      | some label => exact congrArg (_ :: ·) ih

theorem compileFields_append (ms ns : List Member) :
    compileFields ctx (ms ++ ns) = compileFields ctx ms ++ compileFields ctx ns := by
  induction ms with
  | nil => rfl
  | cons member rest ih =>
    cases member with
    | property key isOptional type doc | method key isOptional signature =>
      rw [List.cons_append, compileFields, compileFields, ih]
      cases key.name? <;> rfl
    | index | mapped => exact ih

theorem compileParameters_append (ps qs : List Parameter) :
    compileParameters ctx (ps ++ qs) = compileParameters ctx ps ++ compileParameters ctx qs := by
  induction ps with
  | nil => rfl
  | cons parameter rest ih =>
    cases parameter
    exact congrArg (_ :: ·) ih

theorem literalKeysAll_flatMap (ts : List TypeExpr) :
    literalKeysAll ts = ts.flatMap literalKeys := by
  induction ts with
  | nil => rfl
  | cons t rest ih => rw [literalKeysAll, List.flatMap_cons, ih]

/-! ## Members and elements -/

theorem fill_signature_iff (frame : SignatureFrame) :
    compileSignature ctx (frame.fill t) = compileSignature ctx (frame.fill u) ↔
      compile ctx t = compile ctx u := by
  cases frame with
  | parameter typeParameters before isOptional after returned =>
    simp [SignatureFrame.fill, compileSignature, compileParameters_append, compileParameters,
      callIf_inj, compileOr]
  | result typeParameters parameters =>
    simp [SignatureFrame.fill, compileSignature, compileOr]

/-- The fields around a member have nothing to do with it. -/
theorem compileFields_place (before after : List Member) (frame : MemberFrame) :
    compileFields ctx (before ++ frame.fill t :: after) =
        compileFields ctx (before ++ frame.fill u :: after) ↔
      compileFields ctx [frame.fill t] = compileFields ctx [frame.fill u] := by
  have apart (member : Member) : compileFields ctx (before ++ member :: after) =
      compileFields ctx before ++ (compileFields ctx [member] ++ compileFields ctx after) := by
    rw [← compileFields_append, ← compileFields_append]
    rfl
  rw [apart, apart, List.append_cancel_left_eq, List.append_cancel_right_eq]

theorem compileIndex_place (before after : List Member) (member : Member) :
    compileIndex ctx (before ++ member :: after) =
      (((after.filterMap indexType?).getLast? <|> indexType? member) <|>
        (before.filterMap indexType?).getLast?).map (compile ctx) := by
  rw [compileIndex_eq, List.filterMap_append, List.filterMap_cons]
  cases indexType? member <;> cases after.filterMap indexType? <;> simp [List.getLast?_cons]

theorem isEmpty_compileFields_place (before after : List Member) (frame : MemberFrame) :
    (compileFields ctx (before ++ frame.fill t :: after)).isEmpty =
      (compileFields ctx (before ++ frame.fill u :: after)).isEmpty := by
  rw [compileFields_append, compileFields_append]
  cases frame with
  | property key | method key =>
    dsimp only [MemberFrame.fill, compileFields]
    cases key.name? with
    | none => rfl
    | some name => cases compileFields ctx before <;> rfl
  | index => rfl

theorem isSome_compileIndex_place (before after : List Member) (frame : MemberFrame) :
    (compileIndex ctx (before ++ frame.fill t :: after)).isSome =
      (compileIndex ctx (before ++ frame.fill u :: after)).isSome := by
  rw [compileIndex_place, compileIndex_place]
  cases frame with
  | property | method => rfl
  | index => cases (after.filterMap indexType?).getLast? <;> rfl

theorem fill_member_iff (before after : List Member) (frame : MemberFrame) :
    (compileFields ctx (before ++ frame.fill t :: after) =
        compileFields ctx (before ++ frame.fill u :: after) ∧
      compileIndex ctx (before ++ frame.fill t :: after) =
        compileIndex ctx (before ++ frame.fill u :: after)) ↔
      (frame.Counts after → compile ctx t = compile ctx u) := by
  rw [compileFields_place, compileIndex_place, compileIndex_place]
  cases frame with
  | property key isOptional doc =>
    dsimp only [MemberFrame.fill, MemberFrame.Counts, indexType?, compileFields]
    cases key.name? with
    | none => simp
    | some name => simp [field_inj, compileOr]
  | method key isOptional signature =>
    dsimp only [MemberFrame.fill, MemberFrame.Counts, indexType?, compileFields]
    cases key.name? with
    | none => simp
    | some name => simp [callIf_inj, fill_signature_iff]
  | index =>
    dsimp only [MemberFrame.fill, MemberFrame.Counts, indexType?, compileFields]
    cases later : (after.filterMap indexType?).getLast? with
    | none => simp [List.getLast?_eq_none_iff.mp later]
    | some last =>
      have counted : after.filterMap indexType? ≠ [] := by
        rintro none
        rw [none] at later
        contradiction
      simp [counted]

theorem fill_element_iff (before after : List TupleElement) (frame : ElementFrame) :
    compile ctx ((Frame.element before frame after).fill t) =
        compile ctx ((Frame.element before frame after).fill u) ↔
      (frame.Counts after → compile ctx ((Frame.element before frame after).shown t) =
        compile ctx ((Frame.element before frame after).shown u)) := by
  dsimp only [Frame.fill, Frame.shown]
  rw [compile_tuple_inj, compileItems_append, compileItems_append, compileRest_eq, compileRest_eq,
    List.append_cancel_left_eq, List.filterMap_append, List.filterMap_append]
  cases frame with
  | required label | optional label =>
    simp [ElementFrame.fill, ElementFrame.Counts, Frame.isOpenRest, compileItems, openRestType?,
      List.filterMap_cons]
  | rest label =>
    cases label with
    | some label =>
      simp [ElementFrame.fill, ElementFrame.Counts, Frame.isOpenRest, compileItems, openRestType?,
        List.filterMap_cons]
    | none =>
      cases later : after.filterMap openRestType? with
      | nil =>
        simp [ElementFrame.fill, ElementFrame.Counts, Frame.isOpenRest, compileItems,
          openRestType?, later]
      | cons rest others =>
        simp [ElementFrame.fill, ElementFrame.Counts, Frame.isOpenRest, compileItems,
          openRestType?, later, List.getLast?_cons]

/-! ## Types -/

theorem SameKind.map_literalKeys (alike : SameKind t u) (before after : List TypeExpr) :
    (before ++ t :: after).map literalKeys = (before ++ u :: after).map literalKeys := by
  rw [List.map_append, List.map_append, List.map_cons, List.map_cons, alike.keys]

theorem SameKind.isNullish (alike : SameKind t u) : isNullish t = isNullish u := by
  rw [Compilation.isNullish, Compilation.isNullish, alike.isNull, alike.isUndefined]

/-- Types around the place are of one kind if the types at the place are. -/
theorem SameKind.fill (alike : SameKind t u) (frame : Frame) :
    SameKind (frame.fill t) (frame.fill u) := by
  cases frame with
  | paren => exact ⟨alike.keys, rfl, rfl⟩
  | union before after =>
    refine ⟨?_, rfl, rfl⟩
    have members := congrArg List.flatten (alike.map_literalKeys before after)
    rw [← List.flatMap_def, ← List.flatMap_def] at members
    dsimp only [Frame.fill, literalKeys]
    rwa [literalKeysAll_flatMap, literalKeysAll_flatMap]
  | _ => exact ⟨rfl, rfl, rfl⟩

theorem fill_argument_iff (alike : SameKind t u) (name : String) (before after : List TypeExpr) :
    compile ctx (.apply name (before ++ t :: after)) =
        compile ctx (.apply name (before ++ u :: after)) ↔
      (before.length < (argumentsUsed name).getD 0 → compile ctx t = compile ctx u) := by
  have optional (t? : Option TypeExpr) : t?.elim [] literalKeys = (t?.map literalKeys).getD [] := by
    cases t? <;> rfl
  have keys : ((before ++ t :: after)[1]?).elim [] literalKeys =
      ((before ++ u :: after)[1]?).elim [] literalKeys := by
    rw [optional, optional, ← List.getElem?_map, ← List.getElem?_map,
      alike.map_literalKeys before after]
  have lengths : (compileAll ctx (before ++ t :: after)).length =
      (compileAll ctx (before ++ u :: after)).length := by
    simp [compileAll_eq]
  rw [compile, compile, application_inj lengths keys, compileAll_place, compileAll_place,
    take_append_cons_inj, compileAll_eq, List.length_map]

theorem SameKind.eq_of_isNullish (alike : SameKind t u) (nullish : Compilation.isNullish t = true) :
    t = u := by
  have sameNull := alike.isNull
  have sameUndefined := alike.isUndefined
  cases t with
  | null =>
    cases u with
    | null => rfl
    | _ => contradiction
  | undefined =>
    cases u with
    | undefined => rfl
    | _ => contradiction
  | _ => contradiction

theorem fill_union_iff (alike : SameKind t u) (before after : List TypeExpr) :
    compile ctx (.union (before ++ t :: after)) = compile ctx (.union (before ++ u :: after)) ↔
      compile ctx t = compile ctx u := by
  cases nullish : isNullish t with
  | true =>
    obtain rfl := alike.eq_of_isNullish nullish
    exact iff_of_true rfl rfl
  | false =>
    have concrete {t : TypeExpr} (concrete : isNullish t = false) :
        compileConcrete ctx (before ++ t :: after) =
          compileConcrete ctx before ++ compile ctx t :: compileConcrete ctx after := by
      rw [compileConcrete_append, compileConcrete, concrete]
      rfl
    have null : (before ++ u :: after).any isNull = (before ++ t :: after).any isNull := by
      rw [List.any_append, List.any_append, List.any_cons, List.any_cons, alike.isNull]
    have undefined : (before ++ u :: after).any isUndefined =
        (before ++ t :: after).any isUndefined := by
      rw [List.any_append, List.any_append, List.any_cons, List.any_cons, alike.isUndefined]
    rw [compile, compile, null, undefined, concrete nullish,
      concrete (alike.isNullish ▸ nullish), compileAll_place, compileAll_place,
      unionWith_inj (by simp) (by simp), append_cons_inj, append_cons_inj, ite_self]

theorem fill_object_iff (before after : List Member) (frame : MemberFrame) :
    compile ctx (.object (before ++ frame.fill t :: after)) =
        compile ctx (.object (before ++ frame.fill u :: after)) ↔
      (frame.Counts after → compile ctx t = compile ctx u) := by
  rw [compile, compile, objectOf_inj (isEmpty_compileFields_place before after frame)
    (isSome_compileIndex_place before after frame), fill_member_iff]

theorem fill_lookup_iff (keys : TypeExpr) :
    compile ctx (.lookup t keys) = compile ctx (.lookup u keys) ↔
      ((literalKeys keys).length = 1 → compile ctx t = compile ctx u) := by
  rw [compile, compile]
  cases literalKeys keys with
  | nil => simp
  | cons key others => cases others <;> simp

/-- Types of one kind have the same effect at a place exactly if what is shown of them there has the
same validator or the place does not count. -/
theorem compile_fill_iff (alike : SameKind t u) (frame : Frame) :
    compile ctx (frame.fill t) = compile ctx (frame.fill u) ↔
      (frame.Counts → compile ctx (frame.shown t) = compile ctx (frame.shown u)) := by
  -- Most places count, and the type that stands there is shown as it is.
  have plain (counts : frame.Counts) (closed : frame.isOpenRest = false) :
      (frame.Counts → compile ctx (frame.shown t) = compile ctx (frame.shown u)) ↔
        compile ctx t = compile ctx u := by
    simp [counts, Frame.shown, closed]
  cases frame with
  | argument name before after => exact fill_argument_iff alike name before after
  | array =>
    rw [plain trivial rfl]
    simp [Frame.fill, compile]
  | readonly | paren =>
    rw [plain trivial rfl, Frame.fill, Frame.fill, compile, compile]
  | element before frame after => exact fill_element_iff before after frame
  | union before after => exact (fill_union_iff alike before after).trans (plain trivial rfl).symm
  | inter before after =>
    have lengths : (compileAll ctx (before ++ t :: after)).length =
        (compileAll ctx (before ++ u :: after)).length := by
      simp [compileAll_eq]
    rw [plain trivial rfl, Frame.fill, Frame.fill, compile, compile, intersectionOf_inj lengths,
      compileAll_place, compileAll_place, append_cons_inj]
  | member before frame after => exact fill_object_iff before after frame
  | function signature =>
    rw [plain trivial rfl, Frame.fill, Frame.fill, compile, compile, fill_signature_iff]
  | lookedUp keys => exact fill_lookup_iff keys
  | keys object =>
    dsimp only [Frame.fill, Frame.Counts]
    rw [compile, compile, alike.keys]
    simp

/-! ## Places at any depth -/

/-- Behind a further frame, what a rest element shows of a type tells as much as its validator. -/
theorem compile_restElement_fill_iff (frame : Frame) :
    compile ctx (restElement (frame.fill t)) = compile ctx (restElement (frame.fill u)) ↔
      compile ctx (frame.fill t) = compile ctx (frame.fill u) := by
  cases frame with
  | array => simp [Frame.fill, restElement, compile]
  | _ => exact Iff.rfl

theorem SameKind.plug (alike : SameKind t u) (frames : List Frame) :
    SameKind (plug frames t) (plug frames u) := by
  induction frames with
  | nil => exact alike
  | cons frame rest ih => exact ih.fill frame

theorem compile_shown_plug_iff
    (shown : compile ctx (restElement t) = compile ctx (restElement u) ↔
      compile ctx t = compile ctx u) (frame : Frame) (frames : List Frame) :
    compile ctx (frame.shown (plug frames t)) = compile ctx (frame.shown (plug frames u)) ↔
      compile ctx (plug frames t) = compile ctx (plug frames u) := by
  unfold Frame.shown
  split
  · cases frames with
    | nil => exact shown
    | cons inner rest => exact compile_restElement_fill_iff inner
  · exact Iff.rfl

/-- Types of one kind whose validators a rest element tells apart have the same effect at a place at
any depth exactly if their validators are the same or something around the place does not count. -/
theorem compile_plug_iff (alike : SameKind t u)
    (shown : compile ctx (restElement t) = compile ctx (restElement u) ↔
      compile ctx t = compile ctx u) (frames : List Frame) :
    compile ctx (plug frames t) = compile ctx (plug frames u) ↔
      ((∀ frame ∈ frames, frame.Counts) → compile ctx t = compile ctx u) := by
  induction frames with
  | nil => simp [plug]
  | cons frame rest ih =>
    rw [plug, plug, List.foldr_cons, List.foldr_cons]
    refine (compile_fill_iff (alike.plug rest) frame).trans ?_
    rw [compile_shown_plug_iff shown, ih, List.forall_mem_cons, and_imp]

/-! ## Declarations -/

theorem foldl_extend_inj {e e' : Expr} {es es' : List Expr} (lengths : es'.length = es.length) :
    es'.foldl (fun acc other => .call acc "extend" [.member other "shape"]) e' =
      es.foldl (fun acc other => Expr.call acc "extend" [.member other "shape"]) e ↔
        e' = e ∧ es' = es := by
  induction es generalizing es' e e' with
  | nil => simp [List.length_eq_zero_iff.mp lengths]
  | cons other rest ih =>
    match es', lengths with
    | other' :: rest', lengths =>
      rw [List.foldl_cons, List.foldl_cons, ih (Nat.succ.inj lengths), Expr.call.injEq,
        List.cons.injEq, List.cons.injEq]
      simp [and_assoc]

theorem extending_inj {bases bases' : List Expr} {fields fields' : List (String × Expr)}
    (lengths : bases'.length = bases.length) :
    extending bases' fields' = extending bases fields ↔ bases' = bases ∧ fields' = fields := by
  match bases, bases', lengths with
  | [], [], _ => simp [extending]
  | base :: others, base' :: others', lengths =>
    simp [extending, foldl_extend_inj (Nat.succ.inj lengths)]

/-- An interface shows its bases, its fields and its index. -/
theorem compileBody_interface_inj {name : String} {bases bases' : List TypeExpr}
    {members members' : List Member} (lengths : bases'.length = bases.length)
    (index : (compileIndex ctx members').isSome = (compileIndex ctx members).isSome) :
    compileBody ctx name (.interface bases' members') =
        compileBody ctx name (.interface bases members) ↔
      compileAll ctx bases' = compileAll ctx bases ∧
        compileFields ctx members' = compileFields ctx members ∧
          compileIndex ctx members' = compileIndex ctx members := by
  have objects : extending (compileAll ctx bases') (compileFields ctx members') =
      extending (compileAll ctx bases) (compileFields ctx members) ↔
        compileAll ctx bases' = compileAll ctx bases ∧
          compileFields ctx members' = compileFields ctx members :=
    extending_inj (by simpa [compileAll_eq] using lengths)
  rw [compileBody, compileBody, ← and_assoc, ← objects]
  cases first : compileIndex ctx members with
  | none =>
    rw [first] at index
    simp [Option.isNone_iff_eq_none.mp (Option.isSome_eq_false_iff.mp index)]
  | some value =>
    rw [first] at index
    obtain ⟨value', found⟩ := Option.isSome_iff_exists.mp index
    simp [found]

theorem compileBody_fill_iff {name : String} (frame : BodyFrame) :
    compileBody ctx name (frame.fill t) = compileBody ctx name (frame.fill u) ↔
      (frame.Counts → compile ctx t = compile ctx u) := by
  cases frame with
  | aliased => exact true_imp_iff.symm
  | base before after members =>
    dsimp only [BodyFrame.fill, BodyFrame.Counts]
    rw [compileBody_interface_inj (by simp) rfl, compileAll_place, compileAll_place, append_cons_inj]
    simp
  | member bases before frame after =>
    dsimp only [BodyFrame.fill, BodyFrame.Counts]
    rw [compileBody_interface_inj rfl (isSome_compileIndex_place before after frame),
      fill_member_iff]
    simp

/-- A declaration shows what stands under its name. -/
theorem compileDeclaration_body_inj {options : Options} {d : Declaration} (body' body : Body) :
    compileDeclaration options { d with body := body' } =
        compileDeclaration options { d with body := body } ↔
      compileBody (options.context d) d.name body' = compileBody (options.context d) d.name body :=
  field_inj

end Schemata.Compilation
