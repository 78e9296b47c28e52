import Schemata.Proofs.Generation.Imports

/-! The names that a generated module binds. Validators are checked against each other before they
are placed, but not against the imported declarations nor against the schema namespace; so the
bindings differ exactly if no placed declaration brings such a clash. -/
namespace Schemata

theorem Naming.suffix_name (scheme : Naming.Scheme) (type : String) :
    scheme.after.toList <:+ (scheme.name type).toList := by
  rw [Scheme.name]
  split
  · rw [String.toList_append]
    exact List.suffix_append _ _
  · rw [String.toList_append]
    exact List.suffix_append _ _

namespace Generation

open TypeScript Resolution Modules

variable {options : Options} {source : String} {g : Generation} {d : Declaration}

/-- The names that the module of validators binds: the schema namespace, the imported declarations,
and a constant for each validator. -/
def bindings (g : Generation) : List String :=
  Expr.namespaceName :: (importedNames g.outcome ++ g.validatorNames)

/-- A declaration of the source that has a constant in the module. -/
structure Emitted (options : Options) (source : String) (g : Generation) (d : Declaration) :
    Prop where
  declares : Declares options source d
  placed : options.naming d.name ∈ g.validatorNames

/-- Whether the module imports the declaration: to ascribe the type of a deferred constant, or to
enumerate its values. -/
def isImported (options : Options) (d : Declaration) : Prop :=
  refersToItself options d ∨ Compilation.needsValue d.body = true

theorem needsImport_iff :
    needsImport (Compilation.candidate options.compilation d) = true ↔ isImported options d := by
  rw [needsImport, Bool.or_eq_true, candidate_self_iff]
  rfl

theorem emitted_iff_ranked (generated : ofSource options source = .ok g) :
    Emitted options source g d ↔ Declares options source d ∧
      Compilation.candidate options.compilation d ∈ rankOrder g.candidates options.maxRounds := by
  have listed := mem_candidates generated
  obtain ⟨declarations, _, distinct, rfl⟩ := ofSource_ok generated
  constructor
  · rintro ⟨declares, placed⟩
    have candidate := (listed _).mpr ⟨d, declares, rfl⟩
    exact ⟨declares, (mem_placed_iff distinct candidate).mp placed⟩
  · rintro ⟨declares, ranked⟩
    exact ⟨declares, (mem_placed_iff distinct (mem_rankOrder.mp ranked).1).mpr ranked⟩

theorem mem_validatorNames_iff (generated : ofSource options source = .ok g) {name : String} :
    name ∈ g.validatorNames ↔ ∃ d, Emitted options source g d ∧ options.naming d.name = name := by
  constructor
  · intro member
    obtain ⟨p, placed, rfl⟩ := List.mem_map.mp member
    obtain ⟨d, declares, emitted⟩ := placed_emittedFor generated placed
    exact ⟨d, ⟨declares, emitted.name ▸ member⟩, emitted.name.symm⟩
  · rintro ⟨d, emitted, rfl⟩
    exact emitted.placed

theorem mem_imports_iff (generated : ofSource options source = .ok g) {name : String} :
    name ∈ importedNames g.outcome ↔
      ∃ d, Emitted options source g d ∧ isImported options d ∧ d.name = name := by
  have listed := mem_candidates generated
  have ranked (d : Declaration) := emitted_iff_ranked (d := d) generated
  obtain ⟨declarations, _, distinct, rfl⟩ := ofSource_ok generated
  refine (mem_importedNames distinct).trans ?_
  constructor
  · rintro ⟨c, placed, needed, own⟩
    obtain ⟨d, declares, rfl⟩ := (listed c).mp (mem_rankOrder.mp placed).1
    exact ⟨d, (ranked d).mpr ⟨declares, placed⟩, needsImport_iff.mp needed, own⟩
  · rintro ⟨d, emitted, imported, own⟩
    exact ⟨_, ((ranked d).mp emitted).2, needsImport_iff.mpr imported, own⟩

theorem validatorNames_nodup (generated : ofSource options source = .ok g) :
    g.validatorNames.Nodup := by
  obtain ⟨declarations, _, distinct, rfl⟩ := ofSource_ok generated
  have names := resolve_names distinct options.maxRounds
  rw [validatorNames, ofCandidates, names]
  exact rankOrder_distinct distinct

theorem bindings_nodup_iff (generated : ofSource options source = .ok g) :
    g.bindings.Nodup ↔
      (∀ d, Emitted options source g d → options.naming d.name ≠ Expr.namespaceName) ∧
      ∀ d, Emitted options source g d → isImported options d → d.name ≠ Expr.namespaceName ∧
        ∀ e, Emitted options source g e → options.naming e.name ≠ d.name := by
  have imports : (importedNames g.outcome).Nodup := nodup_eraseDups _
  rw [bindings, List.nodup_cons, List.nodup_append, List.mem_append, not_or,
    and_iff_right imports, and_iff_right (validatorNames_nodup generated)]
  constructor
  · rintro ⟨⟨freeImports, freeNames⟩, apart⟩
    constructor
    · intro d emitted same
      exact freeNames (same ▸ emitted.placed)
    · intro d emitted imported
      have member : d.name ∈ importedNames g.outcome :=
        (mem_imports_iff generated).mpr ⟨d, emitted, imported, rfl⟩
      refine ⟨fun same => freeImports (same ▸ member), fun e other same => ?_⟩
      exact apart d.name member (options.naming e.name) other.placed same.symm
  · rintro ⟨freeNames, freeImports⟩
    refine ⟨⟨fun member => ?_, fun member => ?_⟩, fun name imported var constant same => ?_⟩
    · obtain ⟨d, emitted, imported, same⟩ := (mem_imports_iff generated).mp member
      exact (freeImports d emitted imported).1 same
    · obtain ⟨d, emitted, same⟩ := (mem_validatorNames_iff generated).mp member
      exact freeNames d emitted same
    · obtain ⟨d, emitted, needed, rfl⟩ := (mem_imports_iff generated).mp imported
      obtain ⟨e, other, rfl⟩ := (mem_validatorNames_iff generated).mp constant
      exact (freeImports d emitted needed).2 e other same.symm

/-- The bindings of a module differ exactly if no constant is called like the schema namespace, and
no imported declaration like that or like a constant. A scheme with something behind the name brings
no clash while no imported declaration ends with that. -/
theorem bindings_distinct_iff (generated : ofSource options source = .ok g) :
    (g.bindings.Nodup ↔
      (∀ d, Emitted options source g d → options.naming d.name ≠ Expr.namespaceName) ∧
      ∀ d, Emitted options source g d → isImported options d → d.name ≠ Expr.namespaceName ∧
        ∀ e, Emitted options source g e → options.naming e.name ≠ d.name) ∧
    ∀ scheme : Naming.Scheme, options.naming = scheme.name →
      ¬ scheme.after.toList <:+ Expr.namespaceName.toList →
      (∀ d, Emitted options source g d → isImported options d → d.name ≠ Expr.namespaceName ∧
        ¬ scheme.after.toList <:+ d.name.toList) → g.bindings.Nodup := by
  refine ⟨bindings_nodup_iff generated, fun scheme named behind apart => ?_⟩
  have ending (type : String) : scheme.after.toList <:+ (options.naming type).toList :=
    named ▸ Naming.suffix_name scheme type
  rw [bindings_nodup_iff generated]
  constructor
  · intro d _ same
    exact behind (same ▸ ending d.name)
  · intro d emitted imported
    obtain ⟨free, unlike⟩ := apart d emitted imported
    exact ⟨free, fun e _ same => unlike (same ▸ ending e.name)⟩

theorem bindings_distinct_grove : ∃ g, ofSource {} groveSource = .ok g ∧
    g.validatorNames = ["kindSchema", "treeSchema"] ∧ g.bindings.Nodup := by
  have evaluated : (ofSource {} groveSource).map
      (fun g => (g.validatorNames, g.candidates.map (·.type))) =
        .ok (["kindSchema", "treeSchema"], ["Kind", "Tree", "Lost"]) := by
    decide +kernel
  obtain ⟨g, generated, shown⟩ := ofSource_of_map evaluated
  obtain ⟨names, types⟩ := Prod.mk.inj shown
  have declared (d : Declaration) (emitted : Emitted {} groveSource g d) :
      d.name ∈ ["Kind", "Tree", "Lost"] := by
    have listed := (mem_candidates generated _).mpr ⟨d, emitted.declares, rfl⟩
    exact types ▸ List.mem_map_of_mem listed
  have apart : ∀ name ∈ ["Kind", "Tree", "Lost"], name ≠ Expr.namespaceName ∧
      Naming.standard.name name ≠ Expr.namespaceName ∧
      ∀ other ∈ ["Kind", "Tree", "Lost"], Naming.standard.name other ≠ name := by
    decide +kernel
  refine ⟨g, generated, names, (bindings_distinct_iff generated).1.mpr ⟨?_, ?_⟩⟩
  · intro d emitted
    exact (apart d.name (declared d emitted)).2.1
  · intro d emitted _
    obtain ⟨free, _, others⟩ := apart d.name (declared d emitted)
    exact ⟨free, fun e other => others e.name (declared e other)⟩

/-- An enumeration that is called like the validator of another type. -/
def colorSource : String := "enum colorSchema \x7b B \x7d\ninterface Color \x7b v: string \x7d\n"

/-- The module imports `colorSchema` and declares it. -/
theorem not_bindings_distinct_color : ∃ g, ofSource {} colorSource = .ok g ∧
    g.validatorNames = ["colorSchemaSchema", "colorSchema"] ∧
    "colorSchema" ∈ importedNames g.outcome ∧ ¬ g.bindings.Nodup := by
  have evaluated : (ofSource {} colorSource).map (fun g => (g.validatorNames,
      g.outcome.placed.any fun p => decide (Names p.2 "colorSchema"))) =
      .ok (["colorSchemaSchema", "colorSchema"], true) := by
    decide +kernel
  obtain ⟨g, generated, shown⟩ := ofSource_of_map evaluated
  obtain ⟨names, named⟩ := Prod.mk.inj shown
  simp only [List.any_eq_true, decide_eq_true_eq] at named
  have imported := (mem_importedNames_iff generated).mpr named
  have constant : "colorSchema" ∈ g.validatorNames := by
    rw [names]
    decide
  refine ⟨g, generated, names, imported, fun distinct => ?_⟩
  obtain ⟨_, _, apart⟩ := List.nodup_append.mp (List.nodup_cons.mp distinct).2
  exact apart _ imported _ constant rfl

end Generation

end Schemata
