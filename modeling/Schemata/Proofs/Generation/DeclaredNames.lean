import Schemata.Proofs.Compilation.Scope
import Schemata.Proofs.Generation.Imports

/-! Declared types that are called like a built-in one. What is declared is not known where a type
is compiled: a name with a meaning of its own keeps that, and every other one is a reference, which
becomes a dependency unless the type that it stands in gives way to a later one. -/
namespace Schemata

open TypeScript Semantics

namespace Compilation

variable {ctx : Context} {o : Occurrence} {t : TypeExpr}

theorem Occurrence.isBuiltIn_eq_false : o.isBuiltIn = false ↔
    o.name ∉ builtInNames ∧ (o.applied = true → argumentsUsed o.name = none) := by
  simp [isBuiltIn]

/-- A name without a meaning of its own becomes the validator of that type, with any arguments. -/
theorem compile_of_writes (written : o.Writes t) (free : o.name ∉ ctx.parameters)
    (other : o.isBuiltIn = false) : compile ctx t = .ident (ctx.validatorName o.name) := by
  obtain ⟨unlisted, unused⟩ := Occurrence.isBuiltIn_eq_false.mp other
  unfold Occurrence.Writes at written
  split at written
  case isTrue applied =>
    obtain ⟨args, rfl⟩ := written
    rw [compile, application_eq_reference (unused applied)]
    exact reference_eq_ident free unlisted
  case isFalse =>
    subst written
    exact reference_eq_ident free unlisted

/-- A name with a meaning of its own refers to nothing when it stands alone or without arguments. -/
theorem exists_writes_of_isBuiltIn (bound : List String) (builtIn : o.isBuiltIn = true) :
    ∃ t, o.Writes t ∧ references bound t = [] := by
  have unreferenced (listed : o.name ∈ builtInNames) : referenced bound o.name = [] :=
    if_pos (.inr listed)
  rw [Occurrence.isBuiltIn, Bool.or_eq_true, Bool.and_eq_true, List.contains_iff_mem] at builtIn
  unfold Occurrence.Writes
  cases applied : o.applied with
  | false =>
    rw [applied] at builtIn
    refine ⟨.ref o.name, by simp, unreferenced ?_⟩
    simpa using builtIn
  | true =>
    refine ⟨.apply o.name [], ⟨[], rfl⟩, ?_⟩
    rw [references]
    cases used : argumentsUsed o.name with
    | some count => simp [referencesEach]
    | none =>
      apply unreferenced
      simpa [used] using builtIn

/-- A name always becomes the validator of the type exactly if it has no meaning of its own. -/
theorem compiles_to_ident_iff (free : o.name ∉ ctx.parameters) :
    (∀ t, o.Writes t → compile ctx t = .ident (ctx.validatorName o.name)) ↔
      o.isBuiltIn = false := by
  constructor
  · intro always
    by_contra builtIn
    rw [Bool.not_eq_false] at builtIn
    obtain ⟨t, written, quiet⟩ := exists_writes_of_isBuiltIn ctx.parameters builtIn
    -- The validator of this type has no marks, and an identifier has one.
    have marks := marks_compile ctx t
    rw [always t written, quiet] at marks
    contradiction
  · intro other t written
    exact compile_of_writes written free other

end Compilation

namespace Generation

open Compilation

variable {options : Options} {source : String} {d e : Declaration} {o : Occurrence}

/-- What is written at the occurrence becomes the validator of the declared type. -/
def BecomesDeclared (options : Options) (d e : Declaration) (o : Occurrence) : Prop :=
  ∀ t, o.Writes t →
    compile (options.compilation.context d) t = .ident (candidate options.compilation e).var

def DependsOn (options : Options) (d e : Declaration) : Prop :=
  (candidate options.compilation e).var ∈ (candidate options.compilation d).dependencies

/-- Every reference to a declared type becomes its validator, and a dependency. -/
def DeclaredNamesWin (options : Options) (source : String) : Prop :=
  ∀ d, Declares options source d → ∀ e, Declares options source e →
    ∀ o ∈ bodyOccurrences d.body, o.name = e.name → o.isFree d.typeParameters = true →
      BecomesDeclared options d e o ∧ DependsOn options d e

theorem becomesDeclared_iff (same : o.name = e.name) (free : o.name ∉ d.typeParameters) :
    BecomesDeclared options d e o ↔ o.isBuiltIn = false := by
  have named : (candidate options.compilation e).var =
      (options.compilation.context d).validatorName o.name := by
    rw [same]
    rfl
  rw [BecomesDeclared, named]
  exact compiles_to_ident_iff free

theorem dependsOn_iff : DependsOn options d e ↔ ∃ o ∈ bodyOccurrences d.body,
    o.refers d.typeParameters = true ∧ options.naming o.name = options.naming e.name :=
  mem_dependencies_iff

/-- A reference to a declared type becomes the validator of that type exactly if its name has no
built-in meaning in that form, and then a dependency where no later type replaces it. -/
theorem declared_unless_builtIn (options : Options) (source : String) :
    ∀ d, Declares options source d → ∀ e, Declares options source e →
      ∀ o ∈ bodyOccurrences d.body, o.name = e.name → o.isFree d.typeParameters = true →
        (BecomesDeclared options d e o ↔ o.isBuiltIn = false) ∧
        (o.isBuiltIn = false → o.replaced = false → DependsOn options d e) := by
  intro d _ e _ o member same free
  have unbound : o.name ∉ d.typeParameters := (Occurrence.isFree_iff.mp free).1
  constructor
  · exact becomesDeclared_iff same unbound
  · intro other kept
    have refers := Occurrence.refers_iff.mpr ⟨kept, unbound, other⟩
    exact dependsOn_iff.mpr ⟨o, member, refers, congrArg options.naming same⟩

/-- What a declaration is called, what it binds and what is written in it. -/
def written (d : Declaration) : String × List String × List Occurrence :=
  (d.name, d.typeParameters, bodyOccurrences d.body)

theorem declares_of_written {seen : List (String × List String × List Occurrence)} {name : String}
    {parameters : List String} {os : List Occurrence}
    (evaluated : (Source.parse false source).map (fun ds => ds.map written) = .ok seen)
    (shown : (name, parameters, os) ∈ seen) : ∃ d, Declares {} source d ∧ d.name = name ∧
      d.typeParameters = parameters ∧ bodyOccurrences d.body = os := by
  obtain ⟨declarations, parsed, rfl⟩ := ok_of_map evaluated
  obtain ⟨d, member, same⟩ := List.mem_map.mp shown
  simp only [written, Prod.mk.injEq] at same
  exact ⟨d, ⟨declarations, parsed, member, rfl⟩, same⟩

/-- A type that is called like a built-in one with type arguments, and a generic type. -/
def logSource : String :=
  "interface Record \x7b v: string \x7d\n" ++
  "interface Log \x7b last: Record; find<K>(key: K): Page<Record> \x7d\n" ++
  "interface Page<T> \x7b items: T[] \x7d\n"

theorem declared_unless_builtIn_log : ∃ log record page, Declares {} logSource log ∧
    Declares {} logSource record ∧ Declares {} logSource page ∧
    BecomesDeclared {} log record ⟨"Record", false, [], false⟩ ∧ DependsOn {} log record ∧
    BecomesDeclared {} log page ⟨"Page", true, ["K"], false⟩ ∧ DependsOn {} log page := by
  have evaluated : (Source.parse false logSource).map (fun ds => ds.map written) =
      .ok [("Record", [], []),
        ("Log", [], [⟨"Record", false, [], false⟩, ⟨"K", false, ["K"], false⟩,
          ⟨"Page", true, ["K"], false⟩]),
        ("Page", ["T"], [⟨"T", false, [], false⟩])] := by
    decide +kernel
  obtain ⟨record, first, recordName, _⟩ := declares_of_written evaluated (.head _)
  obtain ⟨log, user, _, parameters, occurring⟩ :=
    declares_of_written evaluated (.tail _ (.head _))
  obtain ⟨page, last, pageName, _⟩ := declares_of_written evaluated (.tail _ (.tail _ (.head _)))
  obtain ⟨bare_iff, bare⟩ := declared_unless_builtIn {} logSource log user record first
    ⟨"Record", false, [], false⟩ (by simp [occurring]) recordName.symm (by rw [parameters]; decide)
  obtain ⟨applied_iff, applied⟩ := declared_unless_builtIn {} logSource log user page last
    ⟨"Page", true, ["K"], false⟩ (by simp [occurring]) pageName.symm (by rw [parameters]; decide)
  refine ⟨log, record, page, user, first, last, ?_, ?_, ?_, ?_⟩
  · exact bare_iff.mpr (by decide)
  · exact bare (by decide) rfl
  · exact applied_iff.mpr (by decide)
  · exact applied (by decide) rfl

/-- A declared type that is called like a built-in one, and a reference to it. -/
def tripSource : String :=
  "interface Date \x7b year: number \x7d\ninterface Trip \x7b start: Date \x7d\n"

/-- Two indices, of which only the last one counts. -/
def tableSource : String :=
  "type A = string;\ntype B = number;\ntype T = \x7b [k: string]: A; [n: number]: B \x7d;\n"

/-- The built-in meaning of `Date` wins over the declared one; and nothing is left of the index with
a declared type. -/
theorem not_declaredNamesWin :
    ¬ DeclaredNamesWin {} tripSource ∧ ¬ DeclaredNamesWin {} tableSource := by
  constructor
  · intro win
    have evaluated : (Source.parse false tripSource).map (fun ds => ds.map written) =
        .ok [("Date", [], []), ("Trip", [], [⟨"Date", false, [], false⟩])] := by
      decide +kernel
    obtain ⟨d, user, _, parameters, occurring⟩ :=
      declares_of_written evaluated (.tail _ (.head _))
    obtain ⟨e, named, date, _⟩ := declares_of_written evaluated (.head _)
    have becomes := (win d user e named ⟨"Date", false, [], false⟩ (by simp [occurring]) date.symm
      (by rw [parameters]; decide)).1
    have other := (becomesDeclared_iff date.symm (by simp [parameters])).mp becomes
    exact absurd other (by decide)
  · intro win
    have evaluated : (Source.parse false tableSource).map (fun ds => ds.map written) =
        .ok [("A", [], []), ("B", [], []),
          ("T", [], [⟨"A", false, [], true⟩, ⟨"B", false, [], false⟩])] := by
      decide +kernel
    obtain ⟨d, user, _, parameters, occurring⟩ :=
      declares_of_written evaluated (.tail _ (.tail _ (.head _)))
    obtain ⟨e, named, first, _⟩ := declares_of_written evaluated (.head _)
    have depends := (win d user e named ⟨"A", false, [], true⟩ (by simp [occurring]) first.symm
      (by rw [parameters]; decide)).2
    rw [dependsOn_iff, occurring, parameters, first] at depends
    exact absurd depends (by decide +kernel)

end Generation

end Schemata
