import Schemata.Proofs.Compilation.References
import Schemata.Proofs.Expr.Identifiers

/-! Candidates as they are compiled: the constant has the validator's name, the dependencies are
what it mentions, and nothing is deferred yet. Only resolution writes `z.lazy`. -/
namespace Schemata

/-- What resolution may rely on in a candidate. -/
structure Candidate.Sound (c : Candidate) : Prop where
  named : c.statement.name = c.var
  listed : ∀ name ∈ c.statement.init.mentions, name ∈ c.dependencies
  eager : c.statement.isDeferred = false

theorem Compilation.candidate_sound (options : Options) (d : TypeScript.Declaration) :
    (candidate options d).Sound where
  named := rfl
  listed _ member := Expr.mem_identifiers.mpr member
  eager := compileDeclaration_eager options d

/-- What can be read off an expression at the places of its references, from left to right, is one
sequence of names. The identifiers are that sequence without the repetitions of a name, and so are
the dependencies of a candidate for its initializer. -/
theorem Compilation.dependencies_first_mentions :
    (∀ (e : Expr) (names : List String), e.ReadsOff names ↔ names = e.mentions) ∧
      (∀ e : Expr, e.identifiers = e.mentions.eraseDups) ∧
      ∀ options d, (candidate options d).dependencies =
        (candidate options d).statement.init.mentions.eraseDups := by
  refine ⟨fun e names => Expr.readsOff_iff, Expr.identifiers_eq, fun options d => ?_⟩
  exact (candidate options d).statement.init.identifiers_eq

end Schemata
