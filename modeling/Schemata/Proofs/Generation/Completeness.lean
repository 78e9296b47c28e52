import Schemata.Proofs.Generation.Emitted
import Schemata.Proofs.Resolution.Diagnosis

/-! Complete generations. There are errors exactly if some declaration that is looked at has no
constant. Without any, the text of the module declares one exported constant for each of them, and
declares nothing else. -/
namespace Schemata

namespace Statement

/-- A constant as it stands in a module, under an empty line and its comment. -/
def exportBlock (s : Statement) : String :=
  "\n" ++ (s.comment.elim "" (· ++ "\n")) ++ "export const " ++ s.name ++
    (s.ascription.elim "" (": " ++ ·)) ++ " = " ++ s.init.render ++ ";\n"

theorem render_exported {s : Statement} (exported : s.exported = true) :
    "\n" ++ s.render ++ "\n" = s.exportBlock := by
  rw [render, exportBlock, if_pos exported]
  cases s.comment <;> cases s.ascription <;>
    simp only [Option.elim, String.append_assoc, String.empty_append] <;> rfl

end Statement

namespace Resolution

variable {cs : List Candidate}

theorem finish_exported (placed : Placements) (c : Candidate) :
    (finish placed c).exported = c.statement.exported := by
  unfold finish
  split <;> rfl

/-- Nothing is reported exactly if everything is placed. -/
theorem classify_eq_nil_iff (distinct : Distinct cs) (limit : Nat) :
    classify cs (resolve cs limit).unresolved = [] ↔
      ∀ c ∈ cs, c.var ∈ (resolve cs limit).placed.map (·.1) := by
  rw [classify_unplaced distinct, List.map_eq_nil_iff, List.eq_nil_iff_forall_not_mem]
  constructor
  · intro none c member
    rw [placed_iff distinct]
    by_contra beyond
    exact none c (mem_unplaced.mpr ⟨member, beyond⟩)
  · intro all c waiting
    obtain ⟨member, beyond⟩ := mem_unplaced.mp waiting
    exact beyond ((placed_iff distinct).mp (all c member))

theorem errorMessage_eq_none_iff {findings : List Finding} :
    errorMessage findings = none ↔ findings = [] := by
  cases findings <;> simp [errorMessage]

end Resolution

namespace Modules

/-- What a module of validators has above its constants. -/
def imports (outcome : Resolution.Outcome) (source : String) : String :=
  header ++ schemaImport ++ declarationImport (importedNames outcome) source

end Modules

namespace Generation

open TypeScript Resolution

variable {options : Options} {source : String} {g : Generation} {d : Declaration} {s : Statement}

/-- A declaration that is looked at and that the module has no constant for. -/
structure Omitted (options : Options) (source : String) (g : Generation) (d : Declaration) :
    Prop where
  declares : Declares options source d
  missing : ∀ s ∈ g.statements, s.name ≠ options.naming d.name

/-- The text of a module that exports one constant for each declaration that is looked at, and
nothing else. -/
structure CompleteText (options : Options) (source text : String) (g : Generation) : Prop where
  layout : ∃ types, text =
    Modules.imports g.outcome types ++ String.join (g.statements.map Statement.exportBlock)
  each : ∀ d, Declares options source d →
    (g.statements.map (·.name)).count (options.naming d.name) = 1
  only : ∀ s ∈ g.statements, ∃ d, Declares options source d ∧ s.name = options.naming d.name

theorem names_statements (generated : ofSource options source = .ok g) :
    g.statements.map (·.name) = g.validatorNames := by
  obtain ⟨declarations, _, distinct, rfl⟩ := ofSource_ok generated
  rw [statements, validatorNames, List.map_map]
  refine List.map_congr_left fun p member => ?_
  exact placed_names distinct (candidatesOf_sound options declarations) member

theorem exported_of_mem (generated : ofSource options source = .ok g) (member : s ∈ g.statements) :
    s.exported = true := by
  obtain ⟨p, placed, rfl⟩ := List.mem_map.mp member
  obtain ⟨declarations, _, distinct, rfl⟩ := ofSource_ok generated
  obtain ⟨c, ranked, before, rfl⟩ := placed_entry distinct placed
  obtain ⟨d, -, rfl⟩ := List.mem_map.mp (mem_rankOrder.mp ranked).1
  exact finish_exported before _

theorem validators_eq (generated : ofSource options source = .ok g) (types : String) :
    Modules.validators g.outcome types =
      Modules.imports g.outcome types ++ String.join (g.statements.map Statement.exportBlock) := by
  rw [Modules.validators, Modules.imports, statements, List.map_map]
  refine congrArg (_ ++ String.join ·) (List.map_congr_left fun p member => ?_)
  exact Statement.render_exported (exported_of_mem generated (List.mem_map_of_mem member))

theorem omitted_iff (generated : ofSource options source = .ok g) :
    Omitted options source g d ↔
      Declares options source d ∧ options.naming d.name ∉ g.validatorNames := by
  rw [← names_statements generated, List.mem_map, not_exists]
  constructor
  · rintro ⟨declares, missing⟩
    exact ⟨declares, fun s both => missing s both.1 both.2⟩
  · rintro ⟨declares, missing⟩
    exact ⟨declares, fun s member same => missing s ⟨member, same⟩⟩

/-- Nothing is reported exactly if every declaration has a constant. -/
theorem errors_eq_nil_iff (generated : ofSource options source = .ok g) :
    g.errors = [] ↔
      ∀ d, Declares options source d → options.naming d.name ∈ g.validatorNames := by
  have listed := mem_candidates generated
  obtain ⟨declarations, _, distinct, rfl⟩ := ofSource_ok generated
  rw [errors, Option.toList_eq_nil_iff, errorMessage_eq_none_iff]
  refine (classify_eq_nil_iff distinct _).trans ⟨fun all d declares => ?_, fun all c member => ?_⟩
  · exact all _ ((listed _).mpr ⟨d, declares, rfl⟩)
  · obtain ⟨d, declares, rfl⟩ := (listed c).mp member
    exact all d declares

/-- Errors are reported exactly if a declaration has no constant. -/
theorem errors_ne_nil_iff (generated : ofSource options source = .ok g) :
    g.errors ≠ [] ↔ ∃ d, Omitted options source g d := by
  simp only [Ne, errors_eq_nil_iff generated, omitted_iff generated, not_forall, exists_prop]

theorem completeText (generated : ofSource options source = .ok g) (none : g.errors = [])
    (types : String) :
    CompleteText options source (Modules.validators g.outcome types) g where
  layout := ⟨types, validators_eq generated types⟩
  each := by
    intro d declares
    have member := (errors_eq_nil_iff generated).mp none d declares
    rw [names_statements generated]
    exact List.count_eq_one_of_mem (validatorNames_nodup generated) member
  only := by
    intro s emitted
    obtain ⟨d, present, named, _⟩ := statement_init generated emitted
    exact ⟨d, present.declares, named⟩

end Generation

end Schemata
