import Schemata.Compilation.TypeExpr
import Schemata.Proofs.DocComment.Additions

/-! What documentation adds to the validator of a field: the calls that its tags ask for, then the mark
of an optional field, then the default value. -/
namespace Schemata.Compilation

open DocComment

/-- The tags of a comment, if they are not ignored. -/
def appliedTags (ctx : Context) (doc : Option String) : List Tag :=
  if ctx.ignoreTags then [] else doc.elim [] Tag.ofComment

theorem appliedTags_none (ctx : Context) : appliedTags ctx none = [] := by
  unfold appliedTags
  split <;> rfl

theorem additions_appliedTags {ctx : Context} {comment : String} :
    additions (appliedTags ctx (some comment)) ≠ [] ↔
      ctx.ignoreTags = false ∧ additions (Tag.ofComment comment) ≠ [] := by
  unfold appliedTags
  cases ctx.ignoreTags with
  | true => simp [additions]
  | false => simp

theorem field_eq (ctx : Context) (isOptional : Bool) (doc : Option String) (e : Expr) :
    field ctx isOptional doc e = Refined.applyDefault (lastDefault (appliedTags ctx doc))
      (callIf isOptional "optional" (chain e (additions (appliedTags ctx doc)))) := by
  unfold field appliedTags
  cases doc with
  | none => cases ctx.ignoreTags <;> rfl
  | some comment =>
    cases ctx.ignoreTags with
    | true => rfl
    | false =>
      dsimp only
      rw [Refined.ofComment, ofTags_eq]
      rfl

end Schemata.Compilation
