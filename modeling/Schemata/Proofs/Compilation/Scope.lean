import Schemata.Naming
import Schemata.Proofs.Compilation.Occurrences
import Schemata.TypeScript.SyntaxError

/-! Type parameters and their scopes. The type parameters of a declaration stand for anything in all
of it, so none of them becomes a dependency. Those of a function or method inside are not known
where its types are compiled: in their scope they are taken for declared types. -/
namespace Schemata.Compilation

open TypeScript

/-- Whether the name is no type parameter where it stands, neither of the declaration nor of a
function or method around it. -/
def Occurrence.isFree (parameters : List String) (o : Occurrence) : Bool :=
  !parameters.contains o.name && !o.scope.contains o.name

/-- Nothing but free occurrences adds to what the validator of a declaration mentions. -/
def RespectsScopes (options : Options) (d : Declaration) : Prop :=
  (compileDeclaration options d).mentions =
    ((bodyOccurrences d.body).filter fun o =>
      o.isFree d.typeParameters && o.refers d.typeParameters).map
        fun o => options.dependencyName o.name

variable {options : Options} {d : Declaration} {o : Occurrence} {parameters : List String}

theorem Occurrence.refers_iff : o.refers parameters = true ↔
    o.replaced = false ∧ o.name ∉ parameters ∧ o.isBuiltIn = false := by
  simp [Occurrence.refers, and_assoc]

theorem Occurrence.isFree_iff :
    o.isFree parameters = true ↔ o.name ∉ parameters ∧ o.name ∉ o.scope := by
  simp [Occurrence.isFree]

theorem Occurrence.isFree_of_refers (refers : o.refers parameters = true) :
    o.isFree parameters = true ↔ o.name ∉ o.scope := by
  rw [isFree_iff]
  exact and_iff_right (refers_iff.mp refers).2.1

/-- What a declaration depends on are the validators of its references. -/
theorem mem_dependencies_iff {name : String} : name ∈ (candidate options d).dependencies ↔
    ∃ o ∈ bodyOccurrences d.body, o.refers d.typeParameters = true ∧
      options.dependencyName o.name = name := by
  have listed : name ∈ (candidate options d).dependencies ↔
      name ∈ (compileDeclaration options d).mentions := Expr.mem_identifiers
  rw [listed, mentions_eq_occurrences]
  simp only [List.mem_map, List.mem_filter, and_assoc]

theorem respectsScopes_iff : RespectsScopes options d ↔
    ∀ o ∈ bodyOccurrences d.body, o.name ∈ o.scope → o.refers d.typeParameters = false := by
  rw [RespectsScopes, mentions_eq_occurrences, ← List.filter_filter]
  have free_iff : (∀ o ∈ (bodyOccurrences d.body).filter (Occurrence.refers d.typeParameters),
      o.isFree d.typeParameters = true) ↔
        ∀ o ∈ bodyOccurrences d.body, o.name ∈ o.scope → o.refers d.typeParameters = false := by
    constructor
    · intro free o member bound
      by_contra refers
      rw [Bool.not_eq_false] at refers
      have kept := free o (List.mem_filter.mpr ⟨member, refers⟩)
      exact (Occurrence.isFree_of_refers refers).mp kept bound
    · intro unbound o member
      obtain ⟨present, refers⟩ := List.mem_filter.mp member
      apply (Occurrence.isFree_of_refers refers).mpr
      intro bound
      rw [unbound o present bound] at refers
      contradiction
  rw [← free_iff]
  constructor
  · -- As many references are free as there are, whatever names their validators have.
    intro same
    have lengths := congrArg List.length same
    rw [List.length_map, List.length_map] at lengths
    exact List.length_filter_eq_length_iff.mp lengths.symm
  · intro free
    rw [List.filter_eq_self.mpr free]

/-- No type parameter of a declaration is among what it depends on. One of a function or method in
it is so exactly if it is referred to in its scope where the declaration has none of that name; else
every dependency comes from a type that is free in the declaration. -/
theorem parameters_bound_iff (options : Options) (d : Declaration) :
    (∀ name ∈ (candidate options d).dependencies, ∃ o ∈ bodyOccurrences d.body,
      o.name ∉ d.typeParameters ∧ options.dependencyName o.name = name) ∧
    (RespectsScopes options d ↔ ∀ o ∈ bodyOccurrences d.body, o.name ∈ o.scope →
      o.name ∈ d.typeParameters ∨ o.isBuiltIn = true ∨ o.replaced = true) ∧
    (RespectsScopes options d → ∀ name ∈ (candidate options d).dependencies,
      ∃ o ∈ bodyOccurrences d.body, o.isFree d.typeParameters = true ∧
        options.dependencyName o.name = name) := by
  refine ⟨?_, ?_, ?_⟩
  · intro name dependency
    obtain ⟨o, member, refers, named⟩ := mem_dependencies_iff.mp dependency
    exact ⟨o, member, (Occurrence.refers_iff.mp refers).2.1, named⟩
  · rw [respectsScopes_iff]
    refine forall_congr' fun o => forall_congr' fun _ => forall_congr' fun _ => ?_
    rw [← Bool.not_eq_true, Occurrence.refers_iff]
    cases o.replaced with
    | true => simp
    | false => cases o.isBuiltIn <;> simp
  · intro respected name dependency
    obtain ⟨o, member, refers, named⟩ := mem_dependencies_iff.mp dependency
    refine ⟨o, member, (Occurrence.isFree_of_refers refers).mpr fun bound => ?_, named⟩
    rw [respectsScopes_iff.mp respected o member bound] at refers
    contradiction

def standardOptions : Options where
  validatorName := Naming.standard
  dependencyName := Naming.standard

/-- What an evaluation says of the declarations of a source. -/
theorem declarations_of_map {source : String} {α : Type} {view : Declaration → α} {as : List α}
    (evaluated : (Source.parse false source).map (fun ds => ds.map view) = .ok as) :
    ∃ ds, Source.parse false source = .ok ds ∧ ds.map view = as := by
  cases parsed : Source.parse false source with
  | error failure =>
    rw [parsed] at evaluated
    contradiction
  | ok declarations =>
    rw [parsed] at evaluated
    exact ⟨declarations, rfl, Except.ok.inj evaluated⟩

theorem declaration_of_map {source : String} {α : Type} {view : Declaration → α} {a : α}
    (evaluated : (Source.parse false source).map (fun ds => ds.map view) = .ok [a]) :
    ∃ d, Source.parse false source = .ok [d] ∧ view d = a := by
  obtain ⟨declarations, parsed, shown⟩ := declarations_of_map evaluated
  obtain ⟨d, rest, rfl, seen, others⟩ := List.map_eq_cons_iff.mp shown
  obtain rfl := List.map_eq_nil_iff.mp others
  exact ⟨d, parsed, seen⟩

theorem two_declarations_of_map {source : String} {α : Type} {view : Declaration → α} {a b : α}
    (evaluated : (Source.parse false source).map (fun ds => ds.map view) = .ok [a, b]) :
    ∃ d e, Source.parse false source = .ok [d, e] ∧ view d = a ∧ view e = b := by
  obtain ⟨declarations, parsed, shown⟩ := declarations_of_map evaluated
  obtain ⟨d, rest, rfl, first, others⟩ := List.map_eq_cons_iff.mp shown
  obtain ⟨e, more, rfl, second, last⟩ := List.map_eq_cons_iff.mp others
  obtain rfl := List.map_eq_nil_iff.mp last
  exact ⟨d, e, parsed, first, second⟩

/-- A method whose type parameter is called like that of the declaration. -/
def boxSource : String := "interface Box<T> \x7b map<T>(change: (item: T) => Other): T \x7d\n"

theorem parameters_bound_box : ∃ d, Source.parse false boxSource = .ok [d] ∧
    bodyOccurrences d.body = [⟨"T", false, ["T"], false⟩, ⟨"Other", false, ["T"], false⟩,
      ⟨"T", false, ["T"], false⟩] ∧
    RespectsScopes standardOptions d ∧
    ∃ o ∈ bodyOccurrences d.body, o.isFree d.typeParameters = true ∧
      standardOptions.dependencyName o.name = "otherSchema" := by
  have evaluated : (Source.parse false boxSource).map (fun ds => ds.map fun d =>
      (d.typeParameters, bodyOccurrences d.body, (candidate standardOptions d).dependencies)) =
        .ok [(["T"], [⟨"T", false, ["T"], false⟩, ⟨"Other", false, ["T"], false⟩,
          ⟨"T", false, ["T"], false⟩], ["otherSchema"])] := by
    decide +kernel
  obtain ⟨d, parsed, seen⟩ := declaration_of_map evaluated
  obtain ⟨own, others⟩ := Prod.mk.inj seen
  obtain ⟨written, dependencies⟩ := Prod.mk.inj others
  obtain ⟨_, respected_iff, of_respected⟩ := parameters_bound_iff standardOptions d
  have respected : RespectsScopes standardOptions d := by
    rw [respected_iff, written, own]
    decide
  refine ⟨d, parsed, written, respected, of_respected respected "otherSchema" ?_⟩
  rw [dependencies]
  decide

/-- A function type with a type parameter, and no other name in it. -/
def handlerSource : String := "type Handler = <T>(value: T) => T;\n"

/-- The type parameter is taken for a declared type, though no name is free in the declaration. -/
theorem not_respectsScopes_handler : ∃ d, Source.parse false handlerSource = .ok [d] ∧
    (∀ o ∈ bodyOccurrences d.body, o.isFree d.typeParameters = false) ∧
    (candidate standardOptions d).dependencies = ["tSchema"] ∧
    ¬ RespectsScopes standardOptions d := by
  have evaluated : (Source.parse false handlerSource).map (fun ds => ds.map fun d =>
      (d.typeParameters, bodyOccurrences d.body, (candidate standardOptions d).dependencies)) =
        .ok [([], [⟨"T", false, ["T"], false⟩, ⟨"T", false, ["T"], false⟩], ["tSchema"])] := by
    decide +kernel
  obtain ⟨d, parsed, seen⟩ := declaration_of_map evaluated
  obtain ⟨own, others⟩ := Prod.mk.inj seen
  obtain ⟨written, dependencies⟩ := Prod.mk.inj others
  refine ⟨d, parsed, ?_, dependencies, ?_⟩
  · rw [written, own]
    decide
  · rw [respectsScopes_iff, written, own]
    decide

end Schemata.Compilation
