import Schemata.Proofs.Compilation.Contexts
import Schemata.Proofs.Compilation.Scope

/-! The spellings of an array type. They are interchangeable wherever an array type may stand, but for
the type of a rest element without a label: there the elements of an array type in brackets are
repeated, and in any other spelling the arrays are. -/
namespace Schemata.Compilation

open TypeScript

/-- How an array type is written, given its elements. -/
inductive Spelling where
  /-- `T[]` -/
  | brackets
  /-- `Array<T>` -/
  | array
  /-- `ReadonlyArray<T>` -/
  | readonlyArray
  /-- `readonly T[]` -/
  | readonlyBrackets
  deriving DecidableEq

def Spelling.write : Spelling → TypeExpr → TypeExpr
  | brackets, element => .array element
  | array, element => .apply "Array" [element]
  | readonlyArray, element => .apply "ReadonlyArray" [element]
  | readonlyBrackets, element => .readonly (.array element)

/-- Whether what stands at a place is the type of the rest element that a tuple is open with, in a
part of the declaration that its validator is put together from. -/
def OpensTuple (body : BodyFrame) (frames : List Frame) : Prop :=
  body.Counts ∧ (∀ frame ∈ frames, frame.Counts) ∧ ∃ frame ∈ frames.getLast?, frame.isOpenRest = true

variable {ctx : Context} {element : TypeExpr}

theorem compile_write (spelling : Spelling) (element : TypeExpr) :
    compile ctx (spelling.write element) = .zod "array" [compile ctx element] := by
  cases spelling <;> rfl

theorem sameKind_write (spelling other : Spelling) (element : TypeExpr) :
    SameKind (spelling.write element) (other.write element) := by
  cases spelling <;> cases other <;> exact ⟨rfl, rfl, rfl⟩

theorem compile_restElement_write (spelling : Spelling) (element : TypeExpr) :
    compile ctx (restElement (spelling.write element)) =
      if spelling = .brackets then compile ctx element else .zod "array" [compile ctx element] := by
  cases spelling <;> rfl

/-- As a rest element, arrays in brackets differ from all others. -/
theorem restElement_write_iff (spelling other : Spelling) :
    compile ctx (restElement (spelling.write element)) =
        compile ctx (restElement (other.write element)) ↔
      (spelling = .brackets ↔ other = .brackets) := by
  have larger : compile ctx element ≠ .zod "array" [compile ctx element] := by
    intro same
    have sizes := congrArg sizeOf same
    simp only [Expr.zod.sizeOf_spec, List.cons.sizeOf_spec] at sizes
    omega
  rw [compile_restElement_write, compile_restElement_write]
  by_cases first : spelling = .brackets
  · by_cases second : other = .brackets
    · simp [first, second]
    · simp [first, second, larger]
  · by_cases second : other = .brackets
    · simp [first, second, larger.symm]
    · simp [first, second]

theorem compile_plug_write_iff (frames : List Frame) (spelling other : Spelling) :
    compile ctx (plug frames (spelling.write element)) =
        compile ctx (plug frames (other.write element)) ↔
      ((∀ frame ∈ frames, frame.Counts) → (∃ frame ∈ frames.getLast?, frame.isOpenRest = true) →
        (spelling = .brackets ↔ other = .brackets)) := by
  rcases List.eq_nil_or_concat' frames with rfl | ⟨outer, inner, rfl⟩
  · simp [plug, compile_write]
  · have alike := sameKind_write spelling other element
    have innermost (t : TypeExpr) : plug (outer ++ [inner]) t = plug outer (inner.fill t) := by
      simp [plug]
    have shown : compile ctx (inner.shown (spelling.write element)) =
        compile ctx (inner.shown (other.write element)) ↔
          (inner.isOpenRest = true → (spelling = .brackets ↔ other = .brackets)) := by
      unfold Frame.shown
      split
      · rename_i rest
        rw [restElement_write_iff, forall_prop_of_true rest]
      · rename_i closed
        simp [closed, compile_write]
    rw [innermost, innermost,
      compile_plug_iff (alike.fill inner) (compile_restElement_fill_iff inner),
      compile_fill_iff alike, shown]
    simp only [List.forall_mem_append, List.forall_mem_singleton, List.getLast?_append,
      List.getLast?_singleton, Option.mem_def, Option.some_or, Option.some.injEq, exists_eq_left',
      and_imp]

theorem compileBody_write_iff {name : String} (body : BodyFrame) (frames : List Frame)
    (spelling other : Spelling) :
    compileBody ctx name (body.fill (plug frames (spelling.write element))) =
        compileBody ctx name (body.fill (plug frames (other.write element))) ↔
      (OpensTuple body frames → (spelling = .brackets ↔ other = .brackets)) := by
  rw [compileBody_fill_iff, compile_plug_write_iff]
  simp [OpensTuple]

/-- One array type in a declaration may be written in another way exactly if both ways or neither are
with brackets alone, or it is not the rest element that some tuple is open with. -/
theorem respelled_compiles_alike_iff (options : Options) (d : Declaration) (body : BodyFrame)
    (frames : List Frame) (spelling other : Spelling) (element : TypeExpr) :
    compileDeclaration options
          { d with body := body.fill (plug frames (spelling.write element)) } =
        compileDeclaration options
          { d with body := body.fill (plug frames (other.write element)) } ↔
      (OpensTuple body frames → (spelling = .brackets ↔ other = .brackets)) :=
  (compileDeclaration_body_inj _ _).trans (compileBody_write_iff body frames spelling other)

/-- The keyword types of a tuple of an item and of arrays in a spelling with a name. -/
def openTuple? : Body → Option (Keyword × Keyword)
  | .alias (.tuple [.required none (.keyword first), .rest none (.apply "Array" [.keyword others])]) =>
    some (first, others)
  | _ => none

theorem openTuple?_eq_some {body : Body} {first others : Keyword}
    (found : openTuple? body = some (first, others)) :
    body = BodyFrame.aliased.fill (plug [.element [.required none (.keyword first)] (.rest none) []]
      (Spelling.array.write (.keyword others))) := by
  unfold openTuple? at found
  split at found
  · obtain ⟨rfl, rfl⟩ := Prod.mk.inj (Option.some.inj found)
    rfl
  · contradiction

/-- A tuple that is open with an array type in a spelling with a name. -/
def openTupleSource : String := "type Args = [string, ...Array<number>];\n"

/-- With brackets in place of the name the tuple has another validator. -/
theorem not_respelled_compiles_alike_args :
    ∃ (d : Declaration) (body : BodyFrame) (frames : List Frame) (element : TypeExpr),
    Source.parse false openTupleSource = .ok [d] ∧
    d.body = body.fill (plug frames (Spelling.array.write element)) ∧
    ∀ options, compileDeclaration options
      { d with body := body.fill (plug frames (Spelling.brackets.write element)) } ≠
        compileDeclaration options d := by
  have evaluated : (Source.parse false openTupleSource).map (fun ds => ds.map fun d =>
      openTuple? d.body) = .ok [some (.string, .number)] := by
    decide +kernel
  obtain ⟨d, parsed, shown⟩ := declaration_of_map evaluated
  have body := openTuple?_eq_some shown
  refine ⟨d, _, _, _, parsed, body, fun options same => ?_⟩
  have bodies := (compileDeclaration_body_inj _ d.body).mp same
  rw [body] at bodies
  have opens : OpensTuple .aliased [.element [.required none (.keyword .string)] (.rest none) []] := by
    simp [OpensTuple, BodyFrame.Counts, Frame.Counts, ElementFrame.Counts, Frame.isOpenRest]
  have alike := (compileBody_write_iff _ _ _ _).mp bodies opens
  exact absurd (alike.mp rfl) (by decide)

end Schemata.Compilation
