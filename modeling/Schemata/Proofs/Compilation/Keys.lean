import Schemata.Proofs.Compilation.Scope

/-! The keys that `Pick`, `Omit` and lookups select by. A type of keys is read through unions and
parentheses. Of its members the string literals without escapes are kept and all others vanish, so
a selection may name less than its type of keys does. -/
namespace Schemata.Compilation

open TypeScript Semantics

mutual

/-- The members of a type of keys, through unions and parentheses, from left to right. -/
def keyMembers : TypeExpr → List TypeExpr
  | .paren type => keyMembers type
  | .union members => keyMembersEach members
  | type => [type]

def keyMembersEach : List TypeExpr → List TypeExpr
  | [] => []
  | t :: ts => keyMembers t ++ keyMembersEach ts

end

def literal? : TypeExpr → Option String
  | .stringLiteral literal => some literal
  | _ => none

/-- The text of a member that is a string literal without escapes. -/
def keyText? (member : TypeExpr) : Option String := (literal? member).bind unquote?

/-- The types that select fields by their keys, and the methods that do so. -/
def selections : List (String × String) := [("Pick", "pick"), ("Omit", "omit")]

/-- A selection lists the values of the string literals that its keys consist of, one for each in
order. Where these consist of anything else, it lists nothing. -/
structure MaskExact (literals : Literals) (ctx : Context) (type keys : TypeExpr) : Prop where
  whole : ∀ texts : List String, keyMembers keys = texts.map .stringLiteral →
    ∀ selection ∈ selections, ∀ more, ∃ names : List String, names.map .string = texts.map literals.value ∧
      compile ctx (.apply selection.1 (type :: keys :: more)) =
        .call (compile ctx type) selection.2 [mask names]
  withheld : (∃ member ∈ keyMembers keys, literal? member = none) →
    ∀ selection ∈ selections, ∀ more target method names,
      compile ctx (.apply selection.1 (type :: keys :: more)) ≠ .call target method [mask names]

/-- A field is looked up exactly where the keys consist of one string literal, by its value. -/
structure LookupExact (literals : Literals) (ctx : Context) (object keys : TypeExpr) : Prop where
  single : ∀ text, keyMembers keys = [.stringLiteral text] →
    ∃ name, .string name = literals.value text ∧
      compile ctx (.lookup object keys) = .member (.member (compile ctx object) "shape") name
  withheld : (∀ text, keyMembers keys ≠ [.stringLiteral text]) →
    ∀ target name, compile ctx (.lookup object keys) ≠ .member (.member target "shape") name

variable {ctx : Context} {literals : Literals} {type object keys : TypeExpr}

theorem keyText?_stringLiteral (text : String) :
    keyText? (.stringLiteral text) = unquote? text := rfl

mutual

/-- The keys that are kept are the texts of the members without escapes. -/
theorem literalKeys_eq : ∀ keys : TypeExpr, literalKeys keys = (keyMembers keys).filterMap keyText?
  | .paren type => by rw [literalKeys, keyMembers, literalKeys_eq type]
  | .union members => by rw [literalKeys, keyMembers, literalKeysAll_eq members]
  | .stringLiteral text => by
    have kept : literalKeys (.stringLiteral text) = (unquote? text).toList := by rw [literalKeys]
    have single : keyMembers (.stringLiteral text) = [.stringLiteral text] := by simp [keyMembers]
    rw [kept, single, List.filterMap_cons, keyText?_stringLiteral]
    cases unquote? text with
    | none => rfl
    | some key => rfl
  | .keyword _ | .null | .undefined | .boolLiteral _ | .numberLiteral _ | .ref _ => by
    simp [literalKeys, keyMembers, keyText?, literal?]
  | .apply _ _ | .array _ | .readonly _ | .tuple _ | .inter _ | .object _ | .function _ => by
    simp [literalKeys, keyMembers, keyText?, literal?]
  | .lookup _ _ | .template | .other => by simp [literalKeys, keyMembers, keyText?, literal?]

theorem literalKeysAll_eq : ∀ types : List TypeExpr,
    literalKeysAll types = (keyMembersEach types).filterMap keyText?
  | [] => rfl
  | t :: ts => by
    rw [literalKeysAll, keyMembersEach, List.filterMap_append, literalKeys_eq t,
      literalKeysAll_eq ts]

end

theorem mask_injective {names others : List String} (same : mask names = mask others) :
    names = others := by
  have firsts := congrArg (List.map Prod.fst) (Expr.object.inj same)
  simpa [Function.comp_def] using firsts

theorem compile_selection {selection : String × String} (member : selection ∈ selections)
    (more : List TypeExpr) : compile ctx (.apply selection.1 (type :: keys :: more)) =
      .call (compile ctx type) selection.2 [mask (literalKeys keys)] := by
  rcases List.mem_pair.mp member with rfl | rfl
  · rfl
  · rfl

theorem compile_lookup_single {key : String} (kept : literalKeys keys = [key]) :
    compile ctx (.lookup object keys) = .member (.member (compile ctx object) "shape") key := by
  rw [compile, kept]

theorem compile_lookup_withheld (kept : (literalKeys keys).length ≠ 1) :
    compile ctx (.lookup object keys) = .anything := by
  rw [compile]
  split
  · rename_i key single
    exact absurd (congrArg List.length single) kept
  · rfl

/-- As many keys as string literals are kept where each of these is without escapes. -/
theorem length_filterMap_eq_iff {α β : Type} {f : α → Option β} {as : List α} :
    (as.filterMap f).length = as.length ↔ ∀ a ∈ as, (f a).isSome := by
  induction as with
  | nil => simp
  | cons a rest ih =>
    have shorter := List.length_filterMap_le f rest
    rw [List.forall_mem_cons, ← ih, List.filterMap_cons]
    cases f a with
    | none => simp; omega
    | some b => simp

/-- Literals without escapes denote their texts. -/
theorem denote_texts {texts : List String} (plain : ∀ text ∈ texts, (unquote? text).isSome) :
    (texts.filterMap unquote?).map .string = texts.map literals.value := by
  induction texts with
  | nil => rfl
  | cons text rest ih =>
    obtain ⟨first, others⟩ := List.forall_mem_cons.mp plain
    obtain ⟨key, read⟩ := Option.isSome_iff_exists.mp first
    rw [List.filterMap_cons, read, List.map_cons, List.map_cons, literals.quoted text key read,
      ih others]

theorem exists_literal {member : TypeExpr} (written : literal? member ≠ none) :
    ∃ text, member = .stringLiteral text := by
  cases member with
  | stringLiteral text => exact ⟨text, rfl⟩
  | _ => exact absurd rfl written

theorem exists_literals {members : List TypeExpr}
    (written : ∀ member ∈ members, literal? member ≠ none) :
    ∃ texts : List String, members = texts.map .stringLiteral := by
  induction members with
  | nil => exact ⟨[], rfl⟩
  | cons member rest ih =>
    obtain ⟨first, others⟩ := List.forall_mem_cons.mp written
    obtain ⟨text, rfl⟩ := exists_literal first
    obtain ⟨texts, rfl⟩ := ih others
    exact ⟨text :: texts, rfl⟩

theorem written_of_keyText? {member : TypeExpr} (plain : (keyText? member).isSome) :
    literal? member ≠ none := by
  intro other
  rw [keyText?, other] at plain
  contradiction

theorem keyTexts_of_literals {texts : List String} :
    (texts.map TypeExpr.stringLiteral).filterMap keyText? = texts.filterMap unquote? :=
  List.filterMap_map

/-- A mask is exact where the keys are string literals without escapes, and nowhere else. -/
theorem maskExact_iff : MaskExact literals ctx type keys ↔
    ∀ member ∈ keyMembers keys, (keyText? member).isSome := by
  constructor
  · intro exact
    -- A selection lists something in any case, so its keys have to be string literals.
    have literal : ∀ member ∈ keyMembers keys, literal? member ≠ none := fun member present other =>
      exact.withheld ⟨member, present, other⟩ _ (.head _) [] _ _ _ (compile_selection (.head _) [])
    obtain ⟨texts, written⟩ := exists_literals literal
    obtain ⟨names, values, compiled⟩ := exact.whole texts written _ (.head _) []
    rw [compile_selection (.head _)] at compiled
    have same : literalKeys keys = names :=
      mask_injective (List.cons.inj (Expr.call.inj compiled).2.2).1
    have full : ((keyMembers keys).filterMap keyText?).length = (keyMembers keys).length := by
      rw [← literalKeys_eq, same, written, List.length_map]
      simpa using congrArg List.length values
    exact length_filterMap_eq_iff.mp full
  · intro plain
    constructor
    · intro texts written selection member more
      refine ⟨literalKeys keys, ?_, compile_selection member more⟩
      rw [literalKeys_eq, written, keyTexts_of_literals]
      apply denote_texts
      intro text listed
      exact plain (.stringLiteral text) (written ▸ List.mem_map_of_mem listed)
    · rintro ⟨member, present, other⟩
      exact absurd other (written_of_keyText? (plain member present))

/-- A lookup is exact where a lone string literal is without escapes, and where no string literal
is the only one without escapes among several members. -/
theorem lookupExact_iff : LookupExact literals ctx object keys ↔
    (∀ text, keyMembers keys = [.stringLiteral text] → (unquote? text).isSome) ∧
    (((keyMembers keys).filterMap keyText?).length = 1 → (keyMembers keys).length = 1) := by
  rw [← literalKeys_eq]
  constructor
  · intro exact
    constructor
    · intro text written
      obtain ⟨name, _, compiled⟩ := exact.single text written
      by_contra escaped
      have none : literalKeys keys = [] := by
        rw [literalKeys_eq, written, List.filterMap_cons, keyText?_stringLiteral,
          Option.not_isSome_iff_eq_none.mp escaped, List.filterMap_nil]
      rw [compile_lookup_withheld (by simp [none])] at compiled
      contradiction
    · intro one
      obtain ⟨key, kept⟩ := List.length_eq_one_iff.mp one
      by_contra several
      refine exact.withheld ?_ _ _ (compile_lookup_single kept)
      intro text written
      exact several (congrArg List.length written)
  · rintro ⟨lone, among⟩
    constructor
    · intro text written
      obtain ⟨key, read⟩ := Option.isSome_iff_exists.mp (lone text written)
      refine ⟨key, (literals.quoted text key read).symm, compile_lookup_single ?_⟩
      rw [literalKeys_eq, written, List.filterMap_cons, keyText?_stringLiteral, read,
        List.filterMap_nil]
    · intro other target name
      have several : (literalKeys keys).length ≠ 1 := by
        intro one
        obtain ⟨member, written⟩ := List.length_eq_one_iff.mp (among one)
        rw [literalKeys_eq, written] at one
        have plain := length_filterMap_eq_iff.mp one member List.mem_cons_self
        obtain ⟨text, rfl⟩ := exists_literal (written_of_keyText? plain)
        exact other text written
      rw [compile_lookup_withheld several]
      exact Expr.noConfusion

/-- The keys of a selection are the texts of the string literals without escapes, in order. So a
mask is exact where its keys consist of such literals, and a lookup where a lone literal is one of
them and where none of several members is the only one of them. -/
theorem keys_exact_iff (literals : Literals) (ctx : Context) (type keys : TypeExpr) :
    (∀ selection ∈ selections, ∀ more, compile ctx (.apply selection.1 (type :: keys :: more)) =
      .call (compile ctx type) selection.2 [mask ((keyMembers keys).filterMap keyText?)]) ∧
    (MaskExact literals ctx type keys ↔ ∀ member ∈ keyMembers keys, (keyText? member).isSome) ∧
    (LookupExact literals ctx type keys ↔
      (∀ text, keyMembers keys = [.stringLiteral text] → (unquote? text).isSome) ∧
      (((keyMembers keys).filterMap keyText?).length = 1 → (keyMembers keys).length = 1)) := by
  refine ⟨fun selection member more => ?_, maskExact_iff, lookupExact_iff⟩
  rw [← literalKeys_eq]
  exact compile_selection member more

/-- The literals among the keys of a type that is picked from another one. -/
def pickedBy : Body → Option (List (Option String))
  | .alias (.apply "Pick" [_, keys]) => some ((keyMembers keys).map literal?)
  | _ => none

/-- The literals among the keys that a field is looked up by. -/
def lookedUpBy : Body → Option (List (Option String))
  | .alias (.lookup _ keys) => some ((keyMembers keys).map literal?)
  | _ => none

theorem pickedBy_eq_some {body : Body} {members : List (Option String)}
    (picked : pickedBy body = some members) : ∃ type keys,
      body = .alias (.apply "Pick" [type, keys]) ∧ (keyMembers keys).map literal? = members := by
  unfold pickedBy at picked
  split at picked
  · exact ⟨_, _, rfl, Option.some.inj picked⟩
  · contradiction

theorem lookedUpBy_eq_some {body : Body} {members : List (Option String)}
    (found : lookedUpBy body = some members) : ∃ object keys,
      body = .alias (.lookup object keys) ∧ (keyMembers keys).map literal? = members := by
  unfold lookedUpBy at found
  split at found
  · exact ⟨_, _, rfl, Option.some.inj found⟩
  · contradiction

theorem keyText?_of_literals {members : List (Option String)}
    (written : (keyMembers keys).map literal? = members) :
    (keyMembers keys).map keyText? = members.map fun literal => literal.bind unquote? := by
  rw [← written, List.map_map]
  rfl

/-- A literal with an escape beside one without, and such a one beside a reference. -/
def cardSource : String :=
  "type Card = Pick<User, \"id\" | \"a\\\"b\">;\ntype Id = User[\"id\" | Key];\n"

/-- The literal with an escape is lost, and one of two members is looked up. -/
theorem not_keysExact_card : ∃ card key, Source.parse false cardSource = .ok [card, key] ∧
    (∃ type keys, card.body = .alias (.apply "Pick" [type, keys]) ∧
      ∀ literals ctx, ¬ MaskExact literals ctx type keys) ∧
    (∃ object keys, key.body = .alias (.lookup object keys) ∧
      ∀ literals ctx, ¬ LookupExact literals ctx object keys) := by
  have evaluated : (Source.parse false cardSource).map (fun ds => ds.map fun d =>
      (pickedBy d.body, lookedUpBy d.body)) =
        .ok [(some [some "\"id\"", some "\"a\\\"b\""], none),
          (none, some [some "\"id\"", none])] := by
    decide +kernel
  have texts : unquote? "\"id\"" = some "id" ∧ unquote? "\"a\\\"b\"" = none := by decide +kernel
  obtain ⟨card, key, parsed, first, second⟩ := two_declarations_of_map evaluated
  refine ⟨card, key, parsed, ?_, ?_⟩
  · obtain ⟨type, keys, written, members⟩ := pickedBy_eq_some (Prod.mk.inj first).1
    refine ⟨type, keys, written, fun literals ctx exact => ?_⟩
    have kept := keyText?_of_literals members
    simp only [List.map_cons, List.map_nil, Option.bind_some, texts] at kept
    have escaped : none ∈ (keyMembers keys).map keyText? := by simp [kept]
    obtain ⟨member, present, unread⟩ := List.mem_map.mp escaped
    have plain := maskExact_iff.mp exact member present
    rw [unread] at plain
    exact Bool.false_ne_true plain
  · obtain ⟨object, keys, written, members⟩ := lookedUpBy_eq_some (Prod.mk.inj second).2
    refine ⟨object, keys, written, fun literals ctx exact => ?_⟩
    have kept := keyText?_of_literals members
    simp only [List.map_cons, List.map_nil, Option.bind_some, Option.bind_none, texts] at kept
    have read : (keyMembers keys).filterMap keyText? =
        ((keyMembers keys).map keyText?).filterMap id := by
      rw [List.filterMap_map, Function.id_comp]
    have one : ((keyMembers keys).filterMap keyText?).length = 1 := by
      rw [read, kept]
      rfl
    have lone := (lookupExact_iff.mp exact).2 one
    have several : (keyMembers keys).length = 2 := by
      simpa using congrArg List.length kept
    omega

end Schemata.Compilation
