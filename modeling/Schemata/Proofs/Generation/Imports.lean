import Schemata.Proofs.Generation.Order
import Schemata.Proofs.Resolution.Deferral
import Schemata.Proofs.Resolution.Imports

/-! The imports of a generated module. A constant is deferred exactly if its declaration's validator
refers to itself; the declarations that the constants name in their ascriptions and enumerations
are exactly those that the module imports, whatever was placed and in whichever round. -/
namespace Schemata

open TypeScript

/-! ## Applied types -/

theorem length_intercalate_any (n : Nat) :
    (", ".intercalate ("any" :: List.replicate n "any")).length = 3 + 5 * n := by
  induction n with
  | zero => rfl
  | succ n ih =>
    rw [List.replicate_succ, String.intercalate_cons_cons, String.length_append,
      String.length_append, ih]
    have : ("any" : String).length = 3 := rfl
    have : (", " : String).length = 2 := rfl
    omega

theorem length_typeReference (name : String) (n : Nat) :
    (typeReference name n).length = name.length + 5 * n := by
  cases n with
  | zero => rfl
  | succ n =>
    rw [typeReference, if_neg (Nat.succ_ne_zero n), List.replicate_succ, String.length_append,
      String.length_append, String.length_append, length_intercalate_any]
    have : ("<" : String).length = 1 := rfl
    have : (">" : String).length = 1 := rfl
    omega

theorem typeReference_injective {name : String} {m n : Nat}
    (same : typeReference name m = typeReference name n) : m = n := by
  have lengths := congrArg String.length same
  rw [length_typeReference, length_typeReference] at lengths
  omega

/-- A repeated type parameter counts once. -/
theorem arity_eq_length_iff (d : Declaration) :
    d.arity = d.typeParameters.length ↔ d.typeParameters.Nodup := by
  constructor
  · intro full
    have kept := (Resolution.eraseDups_sublist d.typeParameters).eq_of_length full
    exact kept ▸ Resolution.nodup_eraseDups d.typeParameters
  · intro distinct
    have same : d.typeParameters.eraseDups.Perm d.typeParameters :=
      (List.perm_ext_iff_of_nodup (Resolution.nodup_eraseDups _) distinct).mpr
        fun _ => List.mem_eraseDups
    exact same.length_eq

theorem deferredAscription_injective {reference other : String}
    (same : Statement.deferredAscription reference = Statement.deferredAscription other) :
    reference = other := by
  have texts := congrArg String.toList same
  simp only [Statement.deferredAscription, String.toList_append] at texts
  exact String.toList_inj.mp (List.append_cancel_left (List.append_cancel_right texts))

namespace Generation

open Resolution Modules

variable {options : Options} {source : String} {g : Generation} {d : Declaration}

/-- The declarations of a source that are looked at. -/
def Declares (options : Options) (source : String) (d : Declaration) : Prop :=
  ∃ declarations, Source.parse options.elements source = .ok declarations ∧
    d ∈ declarations ∧ options.accepts d.name = true

def refersToItself (options : Options) (d : Declaration) : Prop :=
  options.naming d.name ∈ (Compilation.compileDeclaration options.compilation d).identifiers

/-- What is emitted for a declaration. The ascription of a deferred constant has as many arguments
as the declaration has different type parameters. -/
structure EmittedFor (options : Options) (d : Declaration) (p : String × Placed) : Prop where
  name : p.1 = options.naming d.name
  type : p.2.type = d.name
  parameters : p.2.parameters = d.arity
  deferred : p.2.statement.isDeferred = true ↔ refersToItself options d
  wrapped : p.2.statement.isDeferred = true →
    WrappedOnce p.2.statement (typeReference d.name d.arity)
  unwrapped : p.2.statement.isDeferred = false → p.2.statement.ascription = none
  full : p.2.statement.isDeferred = true →
    (WrappedOnce p.2.statement (typeReference d.name d.typeParameters.length) ↔
      d.typeParameters.Nodup)
  enumerated : p.2.statement.init.enumNames =
    if Compilation.needsValue d.body then [d.name] else []

theorem candidate_self_iff :
    (Compilation.candidate options.compilation d).isSelfReferencing = true ↔
      refersToItself options d :=
  decide_eq_true_iff

theorem finish_emittedFor (options : Options) (d : Declaration) (before : Placements) :
    let c := Compilation.candidate options.compilation d
    EmittedFor options d (c.var, ⟨c.type, c.parameters, finish before c⟩) := by
  intro c
  have eager : c.statement.isDeferred = false := Compilation.compileDeclaration_eager _ d
  have deferred : (finish before c).isDeferred = true ↔ refersToItself options d := by
    rw [finish_eq, settle_isDeferred, Candidate.defers, eager, Bool.or_false, candidate_self_iff]
  have wrapped (lazy : (finish before c).isDeferred = true) :
      WrappedOnce (finish before c) (typeReference d.name d.arity) :=
    settle_wrappedOnce eager (candidate_self_iff.mpr (deferred.mp lazy))
  refine ⟨rfl, rfl, rfl, deferred, wrapped, fun plain => ?_, fun lazy => ?_, ?_⟩
  · have free : c.isSelfReferencing = false := by
      rw [Bool.eq_false_iff]
      intro self
      exact Bool.eq_false_iff.mp plain (deferred.mpr (candidate_self_iff.mp self))
    exact settle_ascription_none rfl free
  · rw [← arity_eq_length_iff]
    constructor
    · intro full
      have same := (wrapped lazy).ascription.symm.trans full.ascription
      exact typeReference_injective (deferredAscription_injective (Option.some.inj same))
    · intro full
      exact full ▸ wrapped lazy
  · exact (settle_enumNames eager).trans (Compilation.enumNames_compileDeclaration _ d)

theorem mem_candidates (generated : ofSource options source = .ok g) (c : Candidate) :
    c ∈ g.candidates ↔
      ∃ d, Declares options source d ∧ Compilation.candidate options.compilation d = c := by
  obtain ⟨declarations, parsed, _, rfl⟩ := ofSource_ok generated
  constructor
  · intro member
    obtain ⟨d, accepted, rfl⟩ := List.mem_map.mp member
    obtain ⟨declared, passes⟩ := List.mem_filter.mp accepted
    exact ⟨d, ⟨declarations, parsed, declared, passes⟩, rfl⟩
  · rintro ⟨d, ⟨others, again, declared, passes⟩, rfl⟩
    obtain rfl := Except.ok.inj (parsed.symm.trans again)
    exact List.mem_map_of_mem (List.mem_filter.mpr ⟨declared, passes⟩)

/-- Whether a constant names a declaration: as the one that it is ascribed the schema type of, or as
one that it enumerates. -/
def Names (p : Placed) (type : String) : Prop :=
  p.type = type ∧
      p.statement.ascription = some (Statement.deferredAscription (typeReference type p.parameters)) ∨
    type ∈ p.statement.init.enumNames

instance (p : Placed) (type : String) : Decidable (Names p type) :=
  inferInstanceAs (Decidable (_ ∨ _))

variable {p : String × Placed} {type : String}

theorem placed_emittedFor (generated : ofSource options source = .ok g)
    (member : p ∈ g.outcome.placed) :
    ∃ d, Declares options source d ∧ EmittedFor options d p := by
  have listed := mem_candidates generated
  obtain ⟨declarations, _, distinct, rfl⟩ := ofSource_ok generated
  obtain ⟨c, ranked, before, rfl⟩ := placed_entry distinct member
  obtain ⟨d, declares, rfl⟩ := (listed c).mp (mem_rankOrder.mp ranked).1
  exact ⟨d, declares, finish_emittedFor options d before⟩

/-- A constant names its own declaration at most, and this exactly if that needs an import. -/
theorem EmittedFor.names_iff (emitted : EmittedFor options d p) : Names p.2 type ↔
    needsImport (Compilation.candidate options.compilation d) = true ∧ d.name = type := by
  rw [needsImport, Bool.or_eq_true, candidate_self_iff, ← emitted.deferred]
  constructor
  · rintro (⟨own, ascribed⟩ | enumerated)
    · refine ⟨.inl ?_, emitted.type.symm.trans own⟩
      by_contra plain
      rw [emitted.unwrapped (Bool.eq_false_iff.mpr plain)] at ascribed
      contradiction
    · rw [emitted.enumerated] at enumerated
      split at enumerated
      · rename_i value
        exact ⟨.inr value, (List.mem_singleton.mp enumerated).symm⟩
      · contradiction
  · rintro ⟨lazy | value, rfl⟩
    · refine .inl ⟨emitted.type, ?_⟩
      rw [emitted.parameters]
      exact (emitted.wrapped lazy).ascription
    · have enum : Compilation.needsValue d.body = true := value
      refine .inr ?_
      rw [emitted.enumerated, if_pos enum]
      exact List.mem_singleton_self _

/-- A property of candidates that shows in their constants is found among the constants. -/
theorem exists_placed_iff (generated : ofSource options source = .ok g)
    {ofCandidate : Candidate → Prop} {ofPlaced : String × Placed → Prop}
    (alike : ∀ d p, EmittedFor options d p →
      (ofCandidate (Compilation.candidate options.compilation d) ↔ ofPlaced p)) :
    (∃ c ∈ rankOrder g.candidates options.maxRounds, ofCandidate c) ↔
      ∃ p ∈ g.outcome.placed, ofPlaced p := by
  have listed := mem_candidates generated
  obtain ⟨declarations, _, distinct, rfl⟩ := ofSource_ok generated
  constructor
  · rintro ⟨c, ranked, holds⟩
    obtain ⟨before, placed⟩ := entry_placed distinct ranked
    obtain ⟨d, _, rfl⟩ := (listed c).mp (mem_rankOrder.mp ranked).1
    exact ⟨_, placed, (alike d _ (finish_emittedFor options d before)).mp holds⟩
  · rintro ⟨p, member, holds⟩
    obtain ⟨c, ranked, before, rfl⟩ := placed_entry distinct member
    obtain ⟨d, _, rfl⟩ := (listed c).mp (mem_rankOrder.mp ranked).1
    exact ⟨_, ranked, (alike d _ (finish_emittedFor options d before)).mpr holds⟩

theorem mem_importedNames_iff (generated : ofSource options source = .ok g) :
    type ∈ importedNames g.outcome ↔ ∃ p ∈ g.outcome.placed, Names p.2 type := by
  have placed : (∃ c ∈ rankOrder g.candidates options.maxRounds,
      needsImport c = true ∧ c.type = type) ↔ ∃ p ∈ g.outcome.placed, Names p.2 type :=
    exists_placed_iff generated fun d p emitted => emitted.names_iff.symm
  obtain ⟨declarations, _, distinct, rfl⟩ := ofSource_ok generated
  exact (mem_importedNames distinct).trans placed

theorem hasCircularDependencies_iff (generated : ofSource options source = .ok g) :
    g.hasCircularDependencies = true ↔ ∃ s ∈ g.statements, s.isDeferred = true := by
  have placed : (∃ c ∈ rankOrder g.candidates options.maxRounds, c.isSelfReferencing = true) ↔
      ∃ p ∈ g.outcome.placed, p.2.statement.isDeferred = true :=
    exists_placed_iff generated fun d p emitted => candidate_self_iff.trans emitted.deferred.symm
  obtain ⟨declarations, _, distinct, rfl⟩ := ofSource_ok generated
  rw [hasCircularDependencies, Bool.not_eq_true', List.isEmpty_eq_false_iff_exists_mem]
  simp only [statements, List.mem_map, exists_exists_and_eq_and]
  refine Iff.trans ⟨?_, ?_⟩ placed
  · rintro ⟨type, imported⟩
    obtain ⟨c, ranked, self, _⟩ := (mem_typeImports distinct).mp imported
    exact ⟨c, ranked, self⟩
  · rintro ⟨c, ranked, self⟩
    exact ⟨c.type, (mem_typeImports distinct).mpr ⟨c, ranked, self, rfl⟩⟩

theorem unresolved_not_imported (generated : ofSource options source = .ok g) {c : Candidate}
    (listed : c ∈ g.candidates) (left : c.var ∈ g.outcome.unresolved) :
    c.type ∉ importedNames g.outcome := by
  have declared := mem_candidates generated
  obtain ⟨declarations, _, distinct, rfl⟩ := ofSource_ok generated
  intro imported
  obtain ⟨other, ranked, _, same⟩ := (mem_importedNames distinct).mp imported
  obtain ⟨d, _, rfl⟩ := (declared c).mp listed
  obtain ⟨e, _, rfl⟩ := (declared other).mp (mem_rankOrder.mp ranked).1
  -- Declarations of one name have validators of one name, and this one is not placed.
  have vars : (Compilation.candidate options.compilation e).var =
      (Compilation.candidate options.compilation d).var := congrArg options.naming same
  refine unresolved_not_ranked distinct ranked ?_
  rw [vars]
  exact left

/-- Deferred constants are those of the declarations that refer to themselves, and imported are
exactly the declarations that the constants name. An ascription has one `any` for each type
parameter of its declaration exactly if none of them is repeated. -/
theorem imports_exact (generated : ofSource options source = .ok g) :
    (∀ p ∈ g.outcome.placed, ∃ d, Declares options source d ∧ EmittedFor options d p) ∧
    (g.hasCircularDependencies = true ↔ ∃ s ∈ g.statements, s.isDeferred = true) ∧
    (∀ path, validators g.outcome path = header ++ schemaImport ++
      (if importedNames g.outcome = [] then ""
        else "import \x7b " ++ ", ".intercalate (importedNames g.outcome) ++ " \x7d from " ++
          Text.Quoted.quote (importSpecifier path) ++ ";\n") ++
      String.join (g.statements.map fun s => "\n" ++ s.render ++ "\n")) ∧
    (importedNames g.outcome).Pairwise (· < ·) ∧
    (∀ type, type ∈ importedNames g.outcome ↔ ∃ p ∈ g.outcome.placed, Names p.2 type) ∧
    (∀ c ∈ g.candidates, c.var ∈ g.outcome.unresolved → c.type ∉ importedNames g.outcome) := by
  refine ⟨fun p member => placed_emittedFor generated member, hasCircularDependencies_iff generated,
    fun path => ?_, sortedNames_increasing _, fun type => mem_importedNames_iff generated,
    fun c listed left => unresolved_not_imported generated listed left⟩
  rw [validators, declarationImport, statements, List.map_map]
  simp only [List.isEmpty_iff]
  rfl

/-- A type that refers to itself and to an enumeration, and a type that waits for a missing one. -/
def groveSource : String :=
  "enum Kind \x7b Oak \x7d\ninterface Tree<T> \x7b next?: Tree<T>; kind: Kind \x7d\n" ++
    "interface Lost \x7b next?: Lost; other: Absent \x7d\n"

theorem imports_exact_grove : ∃ g, ofSource {} groveSource = .ok g ∧
    g.statements.map (·.isDeferred) = [false, true] ∧ g.hasCircularDependencies = true ∧
    "Kind" ∈ importedNames g.outcome ∧ "Tree" ∈ importedNames g.outcome ∧
    "Lost" ∉ importedNames g.outcome := by
  have evaluated : (ofSource {} groveSource).map (fun g =>
      (g.statements.map (·.isDeferred), ["Kind", "Tree", "Lost"].map fun type =>
        g.outcome.placed.any fun p => decide (Names p.2 type))) =
      .ok ([false, true], [true, true, false]) := by
    decide +kernel
  obtain ⟨g, generated, shown⟩ := ofSource_of_map evaluated
  obtain ⟨deferred, named⟩ := Prod.mk.inj shown
  obtain ⟨_, circular, _, _, imported, _⟩ := imports_exact generated
  simp only [List.map_cons, List.map_nil, List.cons.injEq, List.any_eq_true, List.any_eq_false,
    decide_eq_true_eq, and_true] at named
  obtain ⟨kind, tree, lost⟩ := named
  refine ⟨g, generated, deferred, circular.mpr ?_, (imported "Kind").mpr kind,
    (imported "Tree").mpr tree, fun present => ?_⟩
  · have lazy : true ∈ g.statements.map (·.isDeferred) := by
      rw [deferred]
      decide
    exact List.mem_map.mp lazy
  · obtain ⟨p, member, names⟩ := (imported "Lost").mp present
    exact lost p member names

/-- A type that repeats a type parameter. -/
def repeatedSource : String := "interface Tree<T, T> \x7b next?: Tree<T, T> \x7d\n"

/-- The constant is ascribed the schema type of `Tree<any>` for two type parameters. -/
theorem not_full_repeated : ∃ g d, ofSource {} repeatedSource = .ok g ∧
    Declares {} repeatedSource d ∧ d.name = "Tree" ∧ d.typeParameters = ["T", "T"] ∧
    g.statements.map (fun s => (s.isDeferred, s.ascription)) =
      [(true, some "z.ZodSchema<Tree<any>>")] ∧
    ∀ s ∈ g.statements, ¬ WrappedOnce s (typeReference "Tree" 2) := by
  have evaluated : (ofSource {} repeatedSource).map (fun g =>
      g.statements.map fun s => (s.isDeferred, s.ascription)) =
        .ok [(true, some "z.ZodSchema<Tree<any>>")] := by
    decide +kernel
  have parsed : (Source.parse false repeatedSource).map
      (fun declarations => declarations.map fun d => (d.name, d.typeParameters)) =
        .ok [("Tree", ["T", "T"])] := by
    decide +kernel
  obtain ⟨g, generated, shown⟩ := ofSource_of_map evaluated
  obtain ⟨declarations, read, entries⟩ := ok_of_map parsed
  obtain ⟨d, rest, rfl, entry, _⟩ := List.map_eq_cons_iff.mp entries
  obtain ⟨name, parameters⟩ := Prod.mk.inj entry
  refine ⟨g, d, generated, ⟨d :: rest, read, List.mem_cons_self, rfl⟩, name, parameters, shown, ?_⟩
  intro s emitted full
  have shape : (s.isDeferred, s.ascription) ∈ [(true, some "z.ZodSchema<Tree<any>>")] :=
    shown ▸ List.mem_map_of_mem emitted
  have ascribed := (Prod.mk.inj (List.mem_singleton.mp shape)).2
  have same := Option.some.inj (ascribed.symm.trans full.ascription)
  revert same
  decide

end Generation

end Schemata
