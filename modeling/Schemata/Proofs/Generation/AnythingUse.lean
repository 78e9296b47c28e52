import Schemata.Proofs.Compilation.ObjectOperands
import Schemata.Proofs.Generation.Emitted

/-! The schema that accepts everything in the place of an object schema. What is taken for an object
type is not checked to be compiled to an object schema: it may be a type parameter, a name from
elsewhere or a field of a deferred validator. So a source is safe exactly if no type stands for
anything that one of its emitted declarations takes for an object type. -/
namespace Schemata.Generation

open TypeScript Compilation

/-- No emitted constant accesses the fields of the schema that accepts everything, or calls a method
on it that only object schemas have. -/
def AnythingUnused (g : Generation) : Prop :=
  ∀ s ∈ g.statements, ∀ part ∈ s.init.parts, Expr.takesForObject Expr.isAnything part = false

/-- Whether nothing but the schema that accepts everything is left of a type in a declaration. -/
def standsFor (options : Options) (g : Generation) (d : Declaration) (t : TypeExpr) : Bool :=
  standsForAnything d.typeParameters (fun name => g.outcome.placed.defers (options.naming name)) t

variable {options : Options} {source : String} {g : Generation} {d : Declaration}

theorem anythingUnused_iff_selected : g.AnythingUnused ↔
    ∀ s ∈ g.statements, s.init.selected (Expr.takesForObject Expr.isAnything) = [] := by
  refine forall₂_congr fun s _ => ?_
  rw [Expr.selected, List.filter_eq_nil_iff]
  simp only [Bool.not_eq_true]

theorem selected_emittedInit_eq_nil_iff (options : Options) (g : Generation) (d : Declaration) :
    (emittedInit options g d).selected (Expr.takesForObject Expr.isAnything) = [] ↔
      ∀ t, TakenForObject d.body t → standsFor options g d t = false := by
  have kept : (emittedInit options g d).selected (Expr.takesForObject Expr.isAnything) =
      ((compileDeclaration options.compilation d).eraseLookups g.outcome.placed.defers).selected
        (Expr.takesForObject Expr.isAnything) := by
    unfold emittedInit
    split
    · exact Expr.selected_lazy _ _
    · rfl
  rw [kept, Expr.selected_eraseLookups_eq_nil_iff, compileDeclaration,
    selected_field (Expr.plain_takesForObject _), selected_compileBody_eq_nil_iff]
  refine forall₂_congr fun t _ => ?_
  rw [fades_compile]
  rfl

/-- Nothing is done with the schema that accepts everything that only object schemas can do, exactly
if no type stands for anything that an emitted declaration takes for an object type. -/
theorem anythingUnused_iff (generated : ofSource options source = .ok g) :
    g.AnythingUnused ↔ ∀ d, Emitted options source g d →
      ∀ t, TakenForObject d.body t → standsFor options g d t = false := by
  rw [anythingUnused_iff_selected]
  constructor
  · intro unused d emitted
    obtain ⟨s, listed, _, init⟩ := init_of_emitted generated emitted
    rw [← selected_emittedInit_eq_nil_iff, ← init]
    exact unused s listed
  · intro objects s listed
    obtain ⟨d, emitted, _, init⟩ := statement_init generated listed
    rw [init, selected_emittedInit_eq_nil_iff]
    exact objects d emitted

def usesAnything (s : Statement) : Bool :=
  s.init.parts.any (Expr.takesForObject Expr.isAnything)

/-- A type with a type parameter beside one that is derived from an object type. -/
def leafSource : String :=
  "type Box<T> = \x7b value: T \x7d;\ninterface Leaf \x7b v: string \x7d\n" ++
    "type Half = Partial<Leaf>;\n"

theorem anythingUnused_leaf : ∃ g, ofSource {} leafSource = .ok g ∧
    g.validatorNames = ["boxSchema", "leafSchema", "halfSchema"] ∧ g.AnythingUnused ∧
    ∀ d, Emitted {} leafSource g d → ∀ t, TakenForObject d.body t → standsFor {} g d t = false := by
  have evaluated : (ofSource {} leafSource).map (fun g =>
      (g.validatorNames, g.statements.any usesAnything)) =
        .ok (["boxSchema", "leafSchema", "halfSchema"], false) := by
    decide +kernel
  obtain ⟨g, generated, shown⟩ := ofSource_of_map evaluated
  obtain ⟨names, unused⟩ := Prod.mk.inj shown
  have safe : g.AnythingUnused := by
    intro s listed part inside
    have free := List.any_eq_false.mp unused s listed
    exact Bool.eq_false_iff.mpr (List.any_eq_false.mp (Bool.eq_false_iff.mpr free) part inside)
  exact ⟨g, generated, names, safe, (anythingUnused_iff generated).mp safe⟩

/-- A type that is derived from its type parameter, an interface that extends one from elsewhere, and
a type that is derived from a field of a deferred validator. -/
def headSource : String :=
  "type Half<T> = Partial<T>;\ninterface Leaf extends Kinds.Base \x7b v: string \x7d\n" ++
    "type Node = \x7b next?: Node \x7d;\ntype Head = Partial<Node[\"next\"]>;\n"

/-- Each of the three derives an object schema from the schema that accepts everything. -/
theorem not_anythingUnused_head : ∃ g, ofSource {} headSource = .ok g ∧
    g.statements.map (fun s => (s.name, usesAnything s)) =
      [("halfSchema", true), ("leafSchema", true), ("nodeSchema", false), ("headSchema", true)] ∧
    ¬ g.AnythingUnused := by
  have evaluated : (ofSource {} headSource).map (fun g =>
      g.statements.map fun s => (s.name, usesAnything s)) =
        .ok [("halfSchema", true), ("leafSchema", true), ("nodeSchema", false),
          ("headSchema", true)] := by
    decide +kernel
  obtain ⟨g, generated, shown⟩ := ofSource_of_map evaluated
  refine ⟨g, generated, shown, fun safe => ?_⟩
  have half : ("halfSchema", true) ∈ g.statements.map fun s => (s.name, usesAnything s) := by
    rw [shown]
    exact List.mem_cons_self
  obtain ⟨s, listed, entry⟩ := List.mem_map.mp half
  obtain ⟨part, inside, used⟩ := List.any_eq_true.mp (Prod.mk.inj entry).2
  exact Bool.noConfusion (used.symm.trans (safe s listed part inside))

end Schemata.Generation
