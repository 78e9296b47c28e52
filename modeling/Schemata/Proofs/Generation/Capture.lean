import Schemata.Proofs.Compilation.Renaming
import Schemata.Proofs.Compilation.Scope
import Schemata.Proofs.Generation.Emitted

/-! Which type a reference means. Types are found by the names of their validators, and only those
of the declared types are kept apart: a name that is declared nowhere means the type whose validator
has the same name, if there is one. -/
namespace Schemata

open TypeScript

namespace Generation

open Resolution Compilation

/-- The initializer of a declaration's constant, with each reference by the name that it is written
with. -/
def writtenInit (options : Options) (g : Generation) (d : Declaration) : Expr :=
  let kept := (compileDeclaration options.compilation.written d).eraseLookups
    fun name => g.outcome.placed.defers (options.naming name)
  if (candidate options.compilation d).isSelfReferencing then .zod "lazy" [.arrow kept]
  else kept

/-- Every reference that is left in a constant is to a declared type. -/
def RefersToDeclared (options : Options) (source : String) (g : Generation) : Prop :=
  ∀ d, Emitted options source g d → ∀ name ∈ (writtenInit options g d).mentions,
    ∃ e, Declares options source e ∧ e.name = name

variable {options : Options} {source : String} {g : Generation} {d e : Declaration} {name : String}

/-- What is mentioned by its written name is a reference in the declaration. -/
theorem written_refers (mentioned : name ∈ (writtenInit options g d).mentions) :
    ∃ o ∈ bodyOccurrences d.body, o.refers d.typeParameters = true ∧ o.name = name := by
  have kept : name ∈ (compileDeclaration options.compilation.written d).mentions := by
    unfold writtenInit at mentioned
    split at mentioned
    · rw [Expr.mentions, Expr.mentionsAll_eq, List.flatMap_singleton, Expr.mentions] at mentioned
      exact Expr.mentions_eraseLookups _ _ mentioned
    · exact Expr.mentions_eraseLookups _ _ mentioned
  rw [mentions_eq_occurrences] at kept
  obtain ⟨o, member, rfl⟩ := List.mem_map.mp kept
  obtain ⟨present, refers⟩ := List.mem_filter.mp member
  exact ⟨o, present, refers, rfl⟩

/-- Erasure goes by the names of the validators, so it may come before or after the renaming. -/
theorem emittedInit_written (options : Options) (g : Generation) (d : Declaration) :
    emittedInit options g d = (writtenInit options g d).rename options.naming := by
  have written : compileDeclaration options.compilation d =
      (compileDeclaration options.compilation.written d).rename options.naming :=
    (rename_compileDeclaration options.compilation d).symm
  rw [emittedInit, written, Expr.eraseLookups_rename, writtenInit]
  split
  · simp only [Expr.rename_zod, List.map_cons, List.map_nil, Expr.rename_arrow]
  · rfl

/-- A constant is what is written in its declaration, by the names of the validators. -/
theorem statement_written (generated : ofSource options source = .ok g) {s : Statement}
    (emitted : s ∈ g.statements) : ∃ d, Emitted options source g d ∧
      s.name = options.naming d.name ∧ s.init = (writtenInit options g d).rename options.naming := by
  obtain ⟨d, present, named, init⟩ := statement_init generated emitted
  exact ⟨d, present, named, init.trans (emittedInit_written options g d)⟩

theorem written_of_emitted (generated : ofSource options source = .ok g)
    (emitted : Emitted options source g d) : ∃ s ∈ g.statements, s.name = options.naming d.name ∧
      s.init = (writtenInit options g d).rename options.naming := by
  obtain ⟨s, listed, named, init⟩ := init_of_emitted generated emitted
  exact ⟨s, listed, named, init.trans (emittedInit_written options g d)⟩

/-- The constants of a module mention nothing but each other and themselves. -/
theorem mentions_subset (generated : ofSource options source = .ok g) {s : Statement}
    (listed : s ∈ g.statements) : s.init.mentions ⊆ g.validatorNames := by
  have constants : ∀ t ∈ g.statements, t.name ∈ g.validatorNames := by
    intro t present
    obtain ⟨d, emitted, named, _⟩ := statement_written generated present
    exact named ▸ emitted.placed
  have ordered : DefinedBeforeUse g.statements := by
    obtain ⟨declarations, _, distinct, rfl⟩ := ofSource_ok generated
    exact resolve_defined_before_use distinct (candidatesOf_sound options declarations) _
  obtain ⟨before, after, split⟩ := List.append_of_mem listed
  intro name mentioned
  rcases (ordered before s after split).1 _ mentioned with earlier | own
  · obtain ⟨t, front, same⟩ := List.mem_map.mp earlier
    exact same ▸ constants t (split ▸ List.mem_append_left _ front)
  · exact own ▸ constants s listed

/-- A reference that is left in a constant means exactly one declared type, which is emitted too. -/
theorem written_means (generated : ofSource options source = .ok g)
    (emitted : Emitted options source g d) (mentioned : name ∈ (writtenInit options g d).mentions) :
    ∃ e, Emitted options source g e ∧ options.naming e.name = options.naming name ∧
      ∀ other, Declares options source other → options.naming other.name = options.naming name →
        other = e := by
  obtain ⟨s, listed, _, init⟩ := written_of_emitted generated emitted
  have read : options.naming name ∈ s.init.mentions := by
    rw [init, Expr.mentions_rename]
    exact List.mem_map_of_mem mentioned
  have placed : options.naming name ∈ g.validatorNames := mentions_subset generated listed read
  obtain ⟨e, target, same⟩ := (mem_validatorNames_iff generated).mp placed
  refine ⟨e, target, same, fun other declares also => ?_⟩
  exact declares_unique generated declares target.declares (also.trans same.symm)

/-- Each constant has the references that are written in its declaration, by the names of their
validators. Such a reference means one emitted type; and this has the written name everywhere
exactly if no written name shares the validator's name of another declared type. -/
theorem captures_nothing_iff (generated : ofSource options source = .ok g) :
    (∀ s ∈ g.statements, ∃ d, Emitted options source g d ∧ s.name = options.naming d.name ∧
      s.init = (writtenInit options g d).rename options.naming) ∧
    (∀ d, Emitted options source g d → ∃ s ∈ g.statements, s.name = options.naming d.name ∧
      s.init = (writtenInit options g d).rename options.naming) ∧
    (∀ d, Emitted options source g d → ∀ name ∈ (writtenInit options g d).mentions,
      (∃ o ∈ bodyOccurrences d.body, o.refers d.typeParameters = true ∧ o.name = name) ∧
      ∃ e, Emitted options source g e ∧ options.naming e.name = options.naming name ∧
        ∀ other, Declares options source other →
          options.naming other.name = options.naming name → other = e) ∧
    (RefersToDeclared options source g ↔
      ∀ d, Emitted options source g d → ∀ name ∈ (writtenInit options g d).mentions,
        ∀ e, Declares options source e → options.naming e.name = options.naming name →
          e.name = name) := by
  refine ⟨fun s listed => statement_written generated listed,
    fun d emitted => written_of_emitted generated emitted, ?_, ?_⟩
  · intro d emitted name mentioned
    exact ⟨written_refers mentioned, written_means generated emitted mentioned⟩
  constructor
  · intro declared d emitted name mentioned e declares same
    obtain ⟨other, also, rfl⟩ := declared d emitted name mentioned
    exact congrArg Declaration.name (declares_unique generated declares also same)
  · intro apart d emitted name mentioned
    obtain ⟨e, target, same, _⟩ := written_means generated emitted mentioned
    exact ⟨e, target.declares, apart d emitted name mentioned e target.declares same⟩

/-- What a source declares, by an evaluation of the names that are written in it. -/
theorem declares_written (declares : Declares options source d)
    {written : List (String × List String)}
    (evaluated : (Source.parse options.elements source).map (fun ds => ds.map fun d =>
      (d.name, (bodyOccurrences d.body).map (·.name))) = .ok written) :
    ∃ entry ∈ written, entry.1 = d.name ∧ ∀ o ∈ bodyOccurrences d.body, o.name ∈ entry.2 := by
  obtain ⟨declarations, parsed, member, _⟩ := declares
  rw [parsed] at evaluated
  obtain rfl := Except.ok.inj evaluated
  exact ⟨_, List.mem_map_of_mem member, rfl, fun o present => List.mem_map_of_mem present⟩

/-- A type that refers to itself, and one that refers to it as a whole and in part. -/
def postSource : String :=
  "interface User \x7b id: string; next?: User \x7d\n" ++
  "interface Post \x7b author: User; key: User[\"id\"] \x7d\n"

theorem captures_nothing_post : ∃ g, ofSource {} postSource = .ok g ∧
    g.validatorNames = ["userSchema", "postSchema"] ∧ RefersToDeclared {} postSource g := by
  have evaluated : (ofSource {} postSource).map validatorNames =
      .ok ["userSchema", "postSchema"] := by
    decide +kernel
  have written : (Source.parse false postSource).map (fun ds => ds.map fun d =>
      (d.name, (bodyOccurrences d.body).map (·.name))) =
        .ok [("User", ["User"]), ("Post", ["User", "User"])] := by
    decide +kernel
  have apart : ∀ entry ∈ [("User", ["User"]), ("Post", ["User", "User"])],
      (∀ name ∈ entry.2, name = "User") ∧
      (Naming.standard entry.1 = Naming.standard "User" → entry.1 = "User") := by
    decide +kernel
  obtain ⟨g, generated, names⟩ := ofSource_of_map evaluated
  obtain ⟨_, _, means, declared_iff⟩ := captures_nothing_iff generated
  refine ⟨g, generated, names, declared_iff.mpr ?_⟩
  intro d emitted name mentioned e declares same
  obtain ⟨⟨o, present, _, rfl⟩, _⟩ := means d emitted name mentioned
  obtain ⟨entry, listed, _, occurring⟩ := declares_written emitted.declares written
  have user : o.name = "User" := (apart entry listed).1 o.name (occurring o present)
  obtain ⟨other, declared, own, _⟩ := declares_written declares written
  rw [user, ← own] at same ⊢
  exact (apart other declared).2 same

/-- A declared type, and a reference to one that is not declared. -/
def userSource : String :=
  "interface User \x7b id: string \x7d\ninterface Post \x7b author: user \x7d\n"

/-- The author of a post is validated as a `User`, though what is written there is `user`. -/
theorem not_refersToDeclared_user : ∃ g, ofSource {} userSource = .ok g ∧
    (g.statements.map fun s => (s.name, s.init.mentions)) =
      [("userSchema", []), ("postSchema", ["userSchema"])] ∧
    (∀ e, Declares {} userSource e → e.name ≠ "user") ∧
    ¬ RefersToDeclared {} userSource g := by
  have evaluated : (ofSource {} userSource).map
      (fun g => g.statements.map fun s => (s.name, s.init.mentions)) =
        .ok [("userSchema", []), ("postSchema", ["userSchema"])] := by
    decide +kernel
  have written : (Source.parse false userSource).map (fun ds => ds.map fun d =>
      (d.name, (bodyOccurrences d.body).map (·.name))) =
        .ok [("User", []), ("Post", ["user"])] := by
    decide +kernel
  have apart : ∀ entry ∈ [("User", []), ("Post", ["user"])],
      entry.1 ≠ "user" ∧ ∀ name ∈ entry.2, name = "user" := by
    decide
  obtain ⟨g, generated, shown⟩ := ofSource_of_map evaluated
  have undeclared (e : Declaration) (declares : Declares {} userSource e) : e.name ≠ "user" := by
    obtain ⟨entry, listed, own, _⟩ := declares_written declares written
    exact own ▸ (apart entry listed).1
  refine ⟨g, generated, shown, undeclared, fun declared => ?_⟩
  have last : ("postSchema", ["userSchema"]) ∈
      g.statements.map fun s => (s.name, s.init.mentions) := by
    simp [shown]
  obtain ⟨s, statement, same⟩ := List.mem_map.mp last
  obtain ⟨d, emitted, _, init⟩ := statement_written generated statement
  have mentions : (writtenInit {} g d).mentions.map Naming.standard = ["userSchema"] := by
    rw [← (Prod.mk.inj same).2, init, Expr.mentions_rename]
  obtain ⟨name, rest, kept, _⟩ := List.map_eq_cons_iff.mp mentions
  have mentioned : name ∈ (writtenInit {} g d).mentions := by
    rw [kept]
    exact List.mem_cons_self
  obtain ⟨o, present, _, rfl⟩ := written_refers mentioned
  obtain ⟨entry, listed, _, occurring⟩ := declares_written emitted.declares written
  obtain ⟨e, declares, named⟩ := declared d emitted o.name mentioned
  exact undeclared e declares (named.trans ((apart entry listed).2 o.name (occurring o present)))

end Generation

end Schemata
