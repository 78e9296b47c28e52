import Schemata.Proofs.Compilation.References
import Schemata.Proofs.Generation.Order
import Schemata.Proofs.Resolution.Rewording

/-! What comments can change. They are read for tags, which refine validators, and can be kept above
the constants; but which validators there are, in which order and after how many rounds, what is
left out and why, and what is imported, is the same for every way of reading them. -/
namespace Schemata.Generation

open Resolution

/-- The same options for comments that are kept or not, and for tags that are ignored or not. -/
def Options.reading (options : Options) (keepComments ignoreTags : Bool) : Options :=
  { options with keepComments, ignoreTags }

/-- Generations that differ in statements at most. -/
structure SameResolution (g h : Generation) : Prop where
  declarations : g.candidates.length = h.candidates.length
  validators : g.validatorNames = h.validatorNames
  unresolved : g.outcome.unresolved = h.outcome.unresolved
  findings : g.findings = h.findings
  rounds : g.outcome.rounds = h.outcome.rounds
  typeImports : g.outcome.typeImports = h.outcome.typeImports
  valueImports : g.outcome.valueImports = h.outcome.valueImports

variable {options : Options} {source : String} {cs ds : List Candidate}
  {f : Statement → Statement} {limit : Nat}

theorem SameResolution.symm {g h : Generation} (same : SameResolution g h) :
    SameResolution h g where
  declarations := same.declarations.symm
  validators := same.validators.symm
  unresolved := same.unresolved.symm
  findings := same.findings.symm
  rounds := same.rounds.symm
  typeImports := same.typeImports.symm
  valueImports := same.valueImports.symm

theorem SameResolution.trans {g h i : Generation} (first : SameResolution g h)
    (second : SameResolution h i) : SameResolution g i where
  declarations := first.declarations.trans second.declarations
  validators := first.validators.trans second.validators
  unresolved := first.unresolved.trans second.unresolved
  findings := first.findings.trans second.findings
  rounds := first.rounds.trans second.rounds
  typeImports := first.typeImports.trans second.typeImports
  valueImports := first.valueImports.trans second.valueImports

theorem ofCandidates_reword (f : Statement → Statement) (cs : List Candidate) (limit : Nat) :
    SameResolution (ofCandidates (cs.map (Candidate.reword f)) limit) (ofCandidates cs limit) := by
  obtain ⟨names, unresolved, rounds, types, values⟩ := resolve_reword f cs limit
  refine ⟨List.length_map _, names, unresolved, ?_, rounds, types, values⟩
  dsimp only [ofCandidates]
  rw [unresolved, classify_reword]

/-- Candidates that become the same by any rewording are resolved alike. -/
theorem ofCandidates_same (same : cs.map (Candidate.reword f) = ds.map (Candidate.reword f))
    (limit : Nat) : SameResolution (ofCandidates cs limit) (ofCandidates ds limit) :=
  (ofCandidates_reword f cs limit).symm.trans (same ▸ ofCandidates_reword f ds limit)

theorem statements_uncommented (same : cs.map (Candidate.reword Statement.uncommented) =
      ds.map (Candidate.reword Statement.uncommented)) (limit : Nat) :
    (ofCandidates cs limit).statements.map Statement.uncommented =
      (ofCandidates ds limit).statements.map Statement.uncommented := by
  have dropped (cs : List Candidate) :
      (ofCandidates cs limit).statements.map Statement.uncommented =
        (resolve (cs.map (Candidate.reword Statement.uncommented)) limit).placed.map
          (·.2.statement) := by
    rw [resolve_uncommented, List.map_map, statements, List.map_map]
    rfl
  rw [dropped, dropped, same]

theorem collision?_reword (earlier : List Candidate) : collision? (earlier.map (Candidate.reword f))
    (cs.map (Candidate.reword f)) = collision? earlier cs := by
  induction cs generalizing earlier with
  | nil => rfl
  | cons c rest ih =>
    have next := ih (c :: earlier)
    rw [List.map_cons] at next
    have found : (earlier.map (Candidate.reword f)).find? (·.var == (c.reword f).var) =
        (earlier.find? (·.var == c.var)).map (Candidate.reword f) := find?_reword c.var
    rw [List.map_cons, collision?, collision?, found, next]
    cases earlier.find? (·.var == c.var) with
    | none => rfl
    | some first => rfl

/-- Neither comments nor their tags change what a declaration depends on. -/
theorem candidate_reading (options : Options) (d : TypeScript.Declaration)
    (keep ignore keep' ignore' : Bool) :
    (Compilation.candidate (options.reading keep ignore).compilation d).reword (fun _ => default) =
      (Compilation.candidate (options.reading keep' ignore').compilation d).reword
        (fun _ => default) := by
  have listed (keep ignore : Bool) :
      (Compilation.compileDeclaration (options.reading keep ignore).compilation d).identifiers =
        ((Compilation.bodyReferences d.typeParameters d.body).map options.naming).foldl Expr.note
          [] := by
    rw [Expr.identifiers, Expr.collect_eq, Compilation.mentions_compileDeclaration]
    rfl
  simp only [Candidate.reword, Compilation.candidate, listed]
  rfl

theorem candidatesOf_reading (options : Options) (declarations : List TypeScript.Declaration)
    (keep ignore keep' ignore' : Bool) :
    (candidatesOf (options.reading keep ignore) declarations).map
        (Candidate.reword fun _ => default) =
      (candidatesOf (options.reading keep' ignore') declarations).map
        (Candidate.reword fun _ => default) := by
  rw [candidatesOf, candidatesOf, List.map_map, List.map_map]
  exact List.map_congr_left fun d _ => candidate_reading options d keep ignore keep' ignore'

theorem candidatesOf_keeping (options : Options) (declarations : List TypeScript.Declaration)
    (keep keep' ignore : Bool) :
    (candidatesOf (options.reading keep ignore) declarations).map
        (Candidate.reword Statement.uncommented) =
      (candidatesOf (options.reading keep' ignore) declarations).map
        (Candidate.reword Statement.uncommented) := by
  rw [candidatesOf, candidatesOf, List.map_map, List.map_map]
  exact List.map_congr_left fun _ _ => rfl

theorem ofSource_eq (options : Options) (source : String) : ofSource options source =
    match TypeScript.Source.parse options.elements source with
    | .error failure => .error (.unreadable failure)
    | .ok declarations =>
      match collision? [] (candidatesOf options declarations) with
      | some failure => .error failure
      | none => .ok (ofCandidates (candidatesOf options declarations) options.maxRounds) := by
  rw [ofSource]
  cases TypeScript.Source.parse options.elements source with
  | error failure => rfl
  | ok declarations => rfl

theorem collision?_reading (options : Options) (declarations : List TypeScript.Declaration)
    (keep ignore keep' ignore' : Bool) :
    collision? [] (candidatesOf (options.reading keep ignore) declarations) =
      collision? [] (candidatesOf (options.reading keep' ignore') declarations) := by
  have blank (cs : List Candidate) :
      collision? [] cs = collision? [] (cs.map (Candidate.reword fun _ => default)) :=
    (collision?_reword []).symm
  rw [blank, candidatesOf_reading options declarations keep ignore keep' ignore', ← blank]

/-- However comments are read, generation fails with the same error or resolves in the same way; and
whether they are kept changes nothing in the statements but the comments. -/
theorem resolution_ignores_comments (options : Options) (source : String) :
    (∃ failure, ∀ keep ignore, ofSource (options.reading keep ignore) source = .error failure) ∨
    ∃ g : Bool → Bool → Generation,
      (∀ keep ignore, ofSource (options.reading keep ignore) source = .ok (g keep ignore)) ∧
      (∀ keep ignore keep' ignore', SameResolution (g keep ignore) (g keep' ignore')) ∧
      ∀ keep keep' ignore, (g keep ignore).statements.map Statement.uncommented =
        (g keep' ignore).statements.map Statement.uncommented := by
  cases parsed : TypeScript.Source.parse options.elements source with
  | error failure =>
    refine .inl ⟨.unreadable failure, fun keep ignore => ?_⟩
    rw [ofSource_eq, Options.reading, parsed]
  | ok declarations =>
    -- Collisions do not depend on how comments are read, so one reading decides for all.
    have run (keep ignore : Bool) : ofSource (options.reading keep ignore) source =
        match collision? [] (candidatesOf (options.reading false false) declarations) with
        | some failure => .error failure
        | none => .ok (ofCandidates (candidatesOf (options.reading keep ignore) declarations)
            options.maxRounds) := by
      have read : TypeScript.Source.parse (options.reading keep ignore).elements source =
          .ok declarations := parsed
      rw [collision?_reading options declarations false false keep ignore, ofSource_eq, read]
      rfl
    cases collided : collision? [] (candidatesOf (options.reading false false) declarations) with
    | some failure =>
      refine .inl ⟨failure, fun keep ignore => ?_⟩
      rw [run, collided]
    | none =>
      refine .inr ⟨fun keep ignore =>
        ofCandidates (candidatesOf (options.reading keep ignore) declarations) options.maxRounds,
        fun keep ignore => ?_, fun keep ignore keep' ignore' => ?_, fun keep keep' ignore => ?_⟩
      · rw [run, collided]
      · exact ofCandidates_same
          (candidatesOf_reading options declarations keep ignore keep' ignore') _
      · exact statements_uncommented
          (candidatesOf_keeping options declarations keep keep' ignore) _

end Schemata.Generation
