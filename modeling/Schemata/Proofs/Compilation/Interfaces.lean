import Schemata.Proofs.Compilation.Contexts
import Schemata.Proofs.Compilation.Fields
import Schemata.Proofs.Compilation.Occurrences

/-! Interfaces that extend nothing, beside aliases of the object types with the same members. They have the
same dependencies, and the same validator but for members that are an index alone: behind an alias these
are a record, in an interface an object without fields that catches all. -/
namespace Schemata.Compilation

open TypeScript

/-- The members have an index and no field. -/
def IndexOnly (members : List Member) : Prop :=
  members.any isIndex = true ∧ (writtenKeys members).filterMap Key.name? = []

instance (members : List Member) : Decidable (IndexOnly members) :=
  inferInstanceAs (Decidable (_ ∧ _))

variable {ctx : Context} {members : List Member}

theorem isSome_compileIndex (ctx : Context) (members : List Member) :
    (compileIndex ctx members).isSome = members.any isIndex := by
  induction members with
  | nil => rfl
  | cons member rest ih =>
    cases member with
    | property | method => exact ih
    | index | mapped => cases found : compileIndex ctx rest <;> simp [compileIndex, isIndex, found]

theorem compileFields_eq_nil_iff :
    compileFields ctx members = [] ↔ (writtenKeys members).filterMap Key.name? = [] := by
  rw [← compileFields_keys ctx, List.map_eq_nil_iff]

theorem indexOnly_iff (ctx : Context) : IndexOnly members ↔
    (compileIndex ctx members).isSome = true ∧ compileFields ctx members = [] := by
  rw [IndexOnly, isSome_compileIndex, compileFields_eq_nil_iff]

/-- The fields of an interface are never turned into a record. -/
theorem compileBody_interface_eq_iff (ctx : Context) (name : String) (members : List Member) :
    compileBody ctx name (.interface [] members) =
        compileBody ctx name (.alias (.object members)) ↔ ¬ IndexOnly members := by
  rw [indexOnly_iff ctx, compileBody, compileBody, compile]
  cases compileIndex ctx members with
  | none => exact iff_of_true rfl (by simp)
  | some value =>
    cases compileFields ctx members with
    | nil => exact iff_of_false (by simp [objectOf]) fun apart => apart ⟨rfl, rfl⟩
    | cons field rest => exact iff_of_true rfl (by simp)

/-- An interface that extends nothing and an alias of the same members have the same dependencies and as
many type parameters, and the same validator exactly if the members are not an index alone. -/
theorem interface_compiles_alike_iff (options : Options) (d : Declaration) (members : List Member) :
    ((candidate options { d with body := .interface [] members }).statement.init =
        (candidate options { d with body := .alias (.object members) }).statement.init ↔
      ¬ IndexOnly members) ∧
    (candidate options { d with body := .interface [] members }).dependencies =
      (candidate options { d with body := .alias (.object members) }).dependencies ∧
    (candidate options { d with body := .interface [] members }).parameters =
      (candidate options { d with body := .alias (.object members) }).parameters := by
  refine ⟨?_, Expr.identifiers_congr ?_, rfl⟩
  · exact (compileDeclaration_body_inj _ _).trans (compileBody_interface_eq_iff _ d.name members)
  · rw [mentions_compileDeclaration, mentions_compileDeclaration]
    rfl

/-- An index over a keyword type, without documentation and type parameters: the declared name, whether
it is an interface, and the keyword. -/
def keywordIndex? (d : Declaration) : Option (String × Bool × Keyword) :=
  match d.doc, d.typeParameters, d.body with
  | none, [], .interface [] [.index (.keyword k)] => some (d.name, true, k)
  | none, [], .alias (.object [.index (.keyword k)]) => some (d.name, false, k)
  | _, _, _ => none

theorem keywordIndex?_eq_some {d : Declaration} {name : String} {isInterface : Bool} {k : Keyword}
    (found : keywordIndex? d = some (name, isInterface, k)) :
    d.name = name ∧ d.doc = none ∧ d.typeParameters = [] ∧
      d.body = if isInterface then .interface [] [.index (.keyword k)]
        else .alias (.object [.index (.keyword k)]) := by
  unfold keywordIndex? at found
  split at found
  · rename_i doc parameters body
    cases found
    exact ⟨rfl, doc, parameters, body⟩
  · rename_i doc parameters body
    cases found
    exact ⟨rfl, doc, parameters, body⟩
  · contradiction

/-- One index in an interface and behind an alias. -/
def scoresSource : String :=
  "interface Scores \x7b [name: string]: number \x7d\n" ++
    "type Scores = \x7b [name: string]: number \x7d;\n"

/-- Only the alias is a record. -/
theorem not_interface_compiles_alike_scores : ∃ shape type index,
    Source.parse false scoresSource = .ok [shape, type] ∧ shape.name = type.name ∧
    shape.typeParameters = type.typeParameters ∧
    shape.body = .interface [] [index] ∧ type.body = .alias (.object [index]) ∧
    ∀ options, (candidate options shape).statement.init ≠
      (candidate options type).statement.init := by
  have evaluated : (Source.parse false scoresSource).map (fun ds => ds.map keywordIndex?) =
      .ok [some ("Scores", true, .number), some ("Scores", false, .number)] := by
    decide +kernel
  obtain ⟨shape, type, parsed, first, second⟩ := two_declarations_of_map evaluated
  obtain ⟨name, doc, parameters, body⟩ := keywordIndex?_eq_some first
  obtain ⟨name', doc', parameters', body'⟩ := keywordIndex?_eq_some second
  refine ⟨shape, type, _, parsed, name.trans name'.symm, parameters.trans parameters'.symm, body,
    body', fun options same => ?_⟩
  simp only [candidate, compileDeclaration, Options.context, name, doc, parameters, body, name', doc',
    parameters', body'] at same
  exact (compileBody_interface_eq_iff _ _ _).mp (field_inj.mp same) (by decide)

end Schemata.Compilation
