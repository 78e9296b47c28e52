import Schemata.Proofs.Compilation.Scope
import Schemata.Proofs.Resolution.Imports

/-! The fields of object validators. Every property and method whose key is read gives a field, in
order and by the text of the key. So a name that is written with escapes has no field, and one that
is declared several times has as many. -/
namespace Schemata.Compilation

open TypeScript Semantics

/-- The properties that keys name in the language of the source, where they are not computed. -/
structure PropertyNames where
  name : Key → String
  plain : ∀ text, isPlainName text = true → name (.plain text) = text
  quoted : ∀ literal text, unquote? literal = some text → name (.quoted literal) = text

def key? : Member → Option Key
  | .property key _ _ _ | .method key _ _ => some key
  | .index _ | .mapped => none

def isLiteral : Key → Bool
  | .computed => false
  | .plain _ | .quoted _ => true

/-- The keys of properties and methods that are not computed. -/
def writtenKeys (members : List Member) : List Key := (members.filterMap key?).filter isLiteral

namespace PropertyNames

/-- What members declare by literal keys, from first to last. -/
def declared (names : PropertyNames) (members : List Member) : List String :=
  (writtenKeys members).map names.name

/-- Whether the text that is taken from a key is the property that it names: a quoted one has no
escapes, and any other one, such as a number, is spelled like its property. -/
def Reads (names : PropertyNames) : Key → Prop
  | .plain text => names.name (.plain text) = text
  | .quoted literal => (unquote? literal).isSome
  | .computed => False

end PropertyNames

/-- The keys of the object literal at the end of an object's validator. -/
def objectKeys : Expr → List String
  | .zod "object" [.object fields] => fields.map (·.1)
  | .call _ "extend" [.object fields] => fields.map (·.1)
  | .call target "catchall" [_] => objectKeys target
  | _ => []

/-- The object type with these members and the interfaces with them have one field for each name
that is declared, in the order of the first declarations. -/
structure FieldsExact (names : PropertyNames) (ctx : Context) (members : List Member) : Prop where
  type : objectKeys (compile ctx (.object members)) = (names.declared members).eraseDups
  interface : ∀ name bases, objectKeys (compileBody ctx name (.interface bases members)) =
    (names.declared members).eraseDups

variable {names : PropertyNames} {ctx : Context} {members : List Member} {key : Key}

theorem compileFields_key {member : Member} {rest : List Member} :
    (compileFields ctx (member :: rest)).map (·.1) =
      ((key? member).bind Key.name?).toList ++ (compileFields ctx rest).map (·.1) := by
  cases member with
  | property key isOptional type doc | method key isOptional signature =>
    rw [compileFields, key?, Option.bind_some]
    cases key.name? with
    | none => rfl
    | some text => rfl
  | index | mapped => rfl

/-- The fields have the texts of the keys that are read. -/
theorem compileFields_keys (ctx : Context) (members : List Member) :
    (compileFields ctx members).map (·.1) = (writtenKeys members).filterMap Key.name? := by
  have computed : (fun key => if isLiteral key then Key.name? key else none) = Key.name? := by
    funext key
    cases key with
    | computed => rfl
    | plain | quoted => rfl
  rw [writtenKeys, List.filterMap_filter, computed, List.filterMap_filterMap]
  induction members with
  | nil => rfl
  | cons member rest ih =>
    rw [compileFields_key, ih, List.filterMap_cons]
    cases (key? member).bind Key.name? with
    | none => rfl
    | some text => rfl

theorem objectKeys_type (ctx : Context) (members : List Member) :
    objectKeys (compile ctx (.object members)) = (writtenKeys members).filterMap Key.name? := by
  rw [← compileFields_keys ctx, compile]
  unfold objectOf
  split
  · rfl
  · split
    · rename_i none
      rw [List.isEmpty_iff.mp none]
      rfl
    · rfl

theorem objectKeys_interface (ctx : Context) (name : String) (bases : List TypeExpr)
    (members : List Member) : objectKeys (compileBody ctx name (.interface bases members)) =
      (writtenKeys members).filterMap Key.name? := by
  have object : objectKeys (extending (compileAll ctx bases) (compileFields ctx members)) =
      (compileFields ctx members).map (·.1) := by
    unfold extending
    split
    · rfl
    · rfl
  rw [← compileFields_keys ctx, ← object, compileBody]
  split
  · rfl
  · rfl

theorem fieldsExact_iff : FieldsExact names ctx members ↔
    (writtenKeys members).filterMap Key.name? = (names.declared members).eraseDups := by
  constructor
  · intro exact
    rw [← objectKeys_type ctx, exact.type]
  · intro same
    exact ⟨(objectKeys_type ctx members).trans same,
      fun name bases => (objectKeys_interface ctx name bases members).trans same⟩

theorem reads_iff (written : isLiteral key = true) :
    names.Reads key ↔ key.name? = some (names.name key) := by
  cases key with
  | plain text => exact Iff.symm (by rw [Key.name?, Option.some_inj, eq_comm]; rfl)
  | quoted literal =>
    rw [PropertyNames.Reads, Key.name?]
    cases read : unquote? literal with
    | none => simp
    | some text => simp [names.quoted literal text read]
  | computed => contradiction

theorem keys_read_iff : (writtenKeys members).filterMap Key.name? = names.declared members ↔
    ∀ key ∈ writtenKeys members, names.Reads key := by
  rw [PropertyNames.declared, List.filterMap_eq_map_iff_forall_eq_some]
  refine forall₂_congr fun key member => ?_
  exact (reads_iff (List.mem_filter.mp member).2).symm

theorem eraseDups_eq_self_iff {texts : List String} : texts.eraseDups = texts ↔ texts.Nodup := by
  constructor
  · intro same
    exact same ▸ Resolution.nodup_eraseDups texts
  · intro distinct
    induction texts with
    | nil => rfl
    | cons text rest ih =>
      obtain ⟨fresh, others⟩ := List.nodup_cons.mp distinct
      have kept : rest.filter (fun other => !other == text) = rest := by
        refine List.filter_eq_self.mpr fun other member => ?_
        simp only [Bool.not_eq_true', beq_eq_false_iff_ne, ne_eq]
        rintro rfl
        exact fresh member
      rw [List.eraseDups_cons, kept, ih others]

theorem FieldsExact.distinct (exact : FieldsExact names ctx members) :
    ((writtenKeys members).filterMap Key.name?).Nodup := by
  rw [fieldsExact_iff.mp exact]
  exact Resolution.nodup_eraseDups _

/-- The fields of an object have the texts of the keys that are read, once for each declaration.
They are exact only if no such text repeats. Where no name is declared twice they are exact if every
key is read, and where every key is read if no name is declared twice, and in neither case else. -/
theorem fields_exact_iff (names : PropertyNames) (ctx : Context) (members : List Member) :
    objectKeys (compile ctx (.object members)) = (writtenKeys members).filterMap Key.name? ∧
    (∀ name bases, objectKeys (compileBody ctx name (.interface bases members)) =
      (writtenKeys members).filterMap Key.name?) ∧
    (FieldsExact names ctx members → ((writtenKeys members).filterMap Key.name?).Nodup) ∧
    ((names.declared members).Nodup →
      (FieldsExact names ctx members ↔ ∀ key ∈ writtenKeys members, names.Reads key)) ∧
    ((∀ key ∈ writtenKeys members, names.Reads key) →
      (FieldsExact names ctx members ↔ (names.declared members).Nodup)) := by
  refine ⟨objectKeys_type ctx members, fun name bases => objectKeys_interface ctx name bases members,
    FieldsExact.distinct, fun distinct => ?_, fun read => ?_⟩
  · rw [fieldsExact_iff, eraseDups_eq_self_iff.mpr distinct, keys_read_iff]
  · rw [fieldsExact_iff, keys_read_iff.mpr read, eq_comm, eraseDups_eq_self_iff]

def writtenIn : Body → Option (List Key)
  | .interface _ members => some (writtenKeys members)
  | _ => none

theorem writtenIn_eq_some {body : Body} {keys : List Key} (found : writtenIn body = some keys) :
    ∃ bases members, body = .interface bases members ∧ writtenKeys members = keys := by
  cases body with
  | interface bases members => exact ⟨bases, members, rfl, Option.some.inj found⟩
  | _ => contradiction

/-- A property whose name is written with an escape, and a method that is declared twice. -/
def finderSource : String :=
  "interface Named \x7b \"a\\\"b\": string \x7d\n" ++
    "interface Finder \x7b find(id: \"x\"): void; find(id: \"x\"): void \x7d\n"

/-- The property is lost, and the method has two fields. -/
theorem not_fieldsExact_finder : ∃ named finder,
    Source.parse false finderSource = .ok [named, finder] ∧
    (∃ bases members, named.body = .interface bases members ∧
      ∀ names ctx, ¬ FieldsExact names ctx members) ∧
    (∃ bases members, finder.body = .interface bases members ∧
      ∀ names ctx, ¬ FieldsExact names ctx members) := by
  have evaluated : (Source.parse false finderSource).map (fun ds => ds.map fun d =>
      writtenIn d.body) =
        .ok [some [.quoted "\"a\\\"b\""], some [.plain "find", .plain "find"]] := by
    decide +kernel
  have escaped : Key.name? (.quoted "\"a\\\"b\"") = none := by decide +kernel
  obtain ⟨named, finder, parsed, first, second⟩ := two_declarations_of_map evaluated
  refine ⟨named, finder, parsed, ?_, ?_⟩
  · obtain ⟨bases, members, body, written⟩ := writtenIn_eq_some first
    refine ⟨bases, members, body, fun names ctx exact => ?_⟩
    have same := fieldsExact_iff.mp exact
    rw [PropertyNames.declared, written, List.filterMap_cons, escaped] at same
    have none : ([] : List String) = [names.name (.quoted "\"a\\\"b\"")] := same
    exact List.cons_ne_nil _ _ none.symm
  · obtain ⟨bases, members, body, written⟩ := writtenIn_eq_some second
    refine ⟨bases, members, body, fun names ctx exact => ?_⟩
    have distinct := exact.distinct
    rw [written] at distinct
    revert distinct
    decide

end Schemata.Compilation
