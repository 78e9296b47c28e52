import Schemata.Config.Basic
import Schemata.Proofs.Json.RoundTrip

/-! A configuration is read back from its text. Every field of an entry stands in the text or is at
its default, no member comes twice, and one entry alone is told from a list of entries. -/
namespace Schemata.Config

open Json Value

variable {α : Type}

theorem mapM_map_some {β : Type} {f : α → β} {g : β → Option α} (inverse : ∀ a, g (f a) = some a)
    (l : List α) : (l.map f).mapM g = some l := by
  induction l with
  | nil => rfl
  | cons a l ih =>
    rw [List.map_cons, List.mapM_cons, inverse, ih]
    rfl

/-! ## Members -/

/-- The members that are there, of those that may be. -/
def present (fields : List (String × Option Value)) : List (String × Value) :=
  fields.filterMap fun (key, value) => value.map (key, ·)

theorem present_cons (key : String) (value : Option Value) (fields : List (String × Option Value)) :
    present ((key, value) :: fields) = (value.map (key, ·)).toList ++ present fields := by
  cases value <;> rfl

theorem keys_present (fields : List (String × Option Value)) :
    ((present fields).map (·.1)).Sublist (fields.map (·.1)) := by
  induction fields with
  | nil => exact List.Sublist.refl _
  | cons field fields ih =>
    obtain ⟨key, value⟩ := field
    cases value with
    | none => exact ih.cons key
    | some v => exact ih.cons_cons key

theorem lookup_present {fields : List (String × Option Value)}
    (distinct : (fields.map (·.1)).Nodup) (key : String) :
    (present fields).lookup key = (fields.lookup key).join := by
  induction fields with
  | nil => rfl
  | cons field fields ih =>
    obtain ⟨k, value⟩ := field
    obtain ⟨new, others⟩ := List.nodup_cons.mp distinct
    cases value with
    | some v =>
      change List.lookup key ((k, v) :: present fields) = _
      rw [List.lookup_cons, List.lookup_cons, ih others]
      split <;> rfl
    | none =>
      change (present fields).lookup key = _
      rw [List.lookup_cons, ih others]
      split
      · rename_i same
        have absent : fields.lookup key = none := by
          refine List.lookup_eq_none_iff.mpr fun field member => ?_
          refine bne_iff_ne.mpr fun found => new ?_
          exact List.mem_map.mpr ⟨field, member, found.symm.trans (beq_iff_eq.mp same)⟩
        rw [absent]
        rfl
      · rfl

theorem not_repeatsField {members : List (String × Value)} (distinct : (members.map (·.1)).Nodup) :
    repeatsField members = false := by
  refine List.any_eq_false.mpr fun name _ => ?_
  have once := List.nodup_iff_count.mp distinct name
  rw [List.count, List.countP_map, List.countP_eq_length_filter] at once
  exact fun twice => Nat.not_lt.mpr once (of_decide_eq_true twice)

/-! ## Fields -/

theorem natural?_toDigits (n : Nat) : Field.natural? (Nat.toDigits 10 n) = some n := by
  have digits : (Nat.toDigits 10 n).all Char.isDigit = true :=
    List.all_eq_true.mpr fun _ member => isDigit_of_mem member
  rw [Field.natural?, if_pos ⟨Nat.toDigits_ne_nil, digits⟩]
  exact congrArg some (natOfDigits_toDigits n)

theorem count?_ofNat (n : UInt32) : Field.count? (.ofNat n.toNat) = some n := by
  rw [Value.ofNat, Field.count?, Nat.toString_eq_ofList_toDigits, String.toList_ofList,
    natural?_toDigits, Option.bind_some, if_pos n.toNat_lt_size, UInt32.ofNat_toNat]

theorem texts?_ofStrings (values : List String) :
    Field.texts? (.ofStrings values) = some values := mapM_map_some (f := Value.string) (g := Field.text?) (fun _ => rfl) values

/-- A list of patterns as a member, which is left out where there are none. -/
def patterns (values : List String) : Option Value :=
  if values.isEmpty then none else some (.ofStrings values)

theorem orDefault_patterns (values : List String) :
    orDefault Field.texts? [] (patterns values) = some values := by
  cases values with
  | nil => rfl
  | cons value values => exact texts?_ofStrings (value :: values)

theorem orDefault_some (read : Value → Option α) (default : α) (value : Value) :
    orDefault read default (some value) = read value := rfl

theorem orDefault_optional (value : Option String) :
    orDefault Field.optional? none (value.map .string) = some value := by
  cases value <;> rfl

namespace Entry

/-- The members of an entry in the order of its fields, with those that are left out. -/
def fields (e : Entry) : List (String × Option Value) :=
  [("name", e.name.map .string), ("input", some (.string e.input)),
    ("output", e.output.map .string), ("withTest", e.assertions.map .string),
    ("maxRun", some (.ofNat e.maxRounds.toNat)), ("keepComments", some (.bool e.keepComments)),
    ("skipParseJSDoc", some (.bool e.ignoreTags)), ("include", patterns e.inclusions),
    ("exclude", patterns e.exclusions), ("schemaNamePrefix", some (.string e.naming.before)),
    ("schemaNameSuffix", some (.string e.naming.after))]

theorem keys_fields (e : Entry) : e.fields.map (·.1) = fieldNames := rfl

theorem present_patterns (key : String) (values : List String) :
    ((patterns values).map (key, ·)).toList =
      if values.isEmpty then [] else [(key, .ofStrings values)] := by
  cases values <;> rfl

theorem toJson_eq (e : Entry) : e.toJson = .object (present e.fields) := by
  have none : present [] = [] := rfl
  unfold toJson fields
  simp only [present_cons, present_patterns, none]
  simp [Function.comp_def]

theorem ofFields_fields (e : Entry) :
    ofFields (fun name => (e.fields.lookup name).join) = some e := by
  unfold ofFields fields
  simp [List.lookup_cons, orDefault_optional, orDefault_patterns, orDefault_some, count?_ofNat,
    Field.text?, Field.flag?]

theorem ofJson?_toJson (e : Entry) : ofJson? e.toJson = some e := by
  have distinct : (e.fields.map (·.1)).Nodup := by
    rw [keys_fields]
    decide
  have once := not_repeatsField ((keys_present e.fields).nodup distinct)
  have found : (fun name => (present e.fields).lookup name) =
      fun name => (e.fields.lookup name).join := funext (lookup_present distinct)
  rw [toJson_eq, ofJson?, once, found]
  exact ofFields_fields e

theorem readable_toJson (e : Entry) (depth : Nat) : e.toJson.Readable (depth + 3) := by
  have texts (values : List String) : (ofStrings values).Readable (depth + 2) := by
    refine ⟨Nat.succ_ne_zero _, fun v member => ?_⟩
    obtain ⟨s, _, rfl⟩ := List.mem_map.mp member
    trivial
  have optional (value : Option String) : ∀ v ∈ value.map Value.string, v.Readable (depth + 2) := by
    cases value with
    | none => nofun
    | some s => exact fun _ same => Option.mem_some_iff.mp same ▸ trivial
  have listed (values : List String) : ∀ v ∈ patterns values, v.Readable (depth + 2) := by
    intro v found
    unfold patterns at found
    split at found
    · cases found
    · cases found
      exact texts values
  have number : (ofNat e.maxRounds.toNat).Readable (depth + 2) :=
    ⟨_, Nat.lt_trans e.maxRounds.toNat_lt (by decide), rfl⟩
  have each : ∀ field ∈ e.fields, ∀ v ∈ field.2, v.Readable (depth + 2) := by
    simp only [fields, List.forall_mem_cons, Option.mem_some_iff, forall_eq']
    exact ⟨optional _, trivial, optional _, optional _, number, trivial, trivial, listed _,
      listed _, trivial, trivial, nofun⟩
  rw [toJson_eq]
  refine ⟨Nat.succ_ne_zero _, fun m member => ?_⟩
  obtain ⟨field, inside, form⟩ := List.mem_filterMap.mp member
  obtain ⟨v, found, rfl⟩ := Option.map_eq_some_iff.mp form
  exact each field inside v found

end Entry

theorem entries?_toJson (c : Config) : entries? c.toJson = some c.entries := by
  obtain ⟨entries⟩ := c
  have all := mapM_map_some Entry.ofJson?_toJson entries
  unfold toJson
  dsimp only
  split
  · rename_i e
    rw [entries?, Entry.ofJson?_toJson]
    · rfl
    · rw [Entry.toJson_eq]
      nofun
  · rw [entries?, all]
    rfl

theorem readable_toJson (c : Config) (depth : Nat) : c.toJson.Readable (depth + 4) := by
  unfold toJson
  split
  · exact Entry.readable_toJson _ (depth + 1)
  · refine ⟨Nat.succ_ne_zero _, fun v member => ?_⟩
    obtain ⟨e, _, rfl⟩ := List.mem_map.mp member
    exact Entry.readable_toJson e depth

/-- The entries are read back from the text of a configuration, valid or not. -/
theorem readEntries_print (c : Config) : readEntries c.print.toList = .ok c.entries := by
  have read := readValue_pretty (c.readable_toJson 124) 0 [] nofun
  rw [List.append_nil] at read
  have text : c.print.toList = prettyChars 0 c.toJson := String.toList_ofList
  rw [text, readEntries, show depthLimit = 124 + 4 from rfl, read]
  dsimp only
  rw [entries?_toJson]
  rfl

/-- Configurations that are accepted: of several entries each has a name, and no two the same. -/
def Valid (c : Config) : Prop :=
  c.entries.length ≤ 1 ∨ (∀ e ∈ c.entries, e.name ≠ none) ∧ (c.entries.map (·.name)).Nodup

theorem checkNames_ok (seen : List String) (entries : List Entry) :
    checkNames seen entries = .ok () ↔ (∀ e ∈ entries, ∃ name ∉ seen, e.name = some name) ∧
      (entries.map (·.name)).Nodup := by
  induction entries generalizing seen with
  | nil => simp [checkNames]
  | cons e es ih =>
    rw [checkNames]
    cases named : e.name with
    | none => simp [named]
    | some name =>
      dsimp only
      by_cases before : name ∈ seen
      · simp [named, before]
      · rw [if_neg before, ih]
        simp only [List.forall_mem_cons, List.map_cons, List.nodup_cons, named, List.mem_map]
        grind

/-- A configuration is read back from its text exactly if it is valid. -/
theorem parse_print_iff (c : Config) : parse c.print = .ok c ↔ c.Valid := by
  have parsed : parse c.print = ofEntries c.entries := by
    rw [parse, readEntries_print]
    rfl
  rw [parsed, ofEntries, Valid]
  split
  · rename_i several
    have named : (∀ e ∈ c.entries, ∃ name ∉ ([] : List String), e.name = some name) ↔
        ∀ e ∈ c.entries, e.name ≠ none := by
      simp [Option.ne_none_iff_exists']
    rw [or_iff_right (Nat.not_le.mpr several), ← named, ← checkNames_ok]
    cases checkNames [] c.entries with
    | error failure => exact iff_of_false nofun nofun
    | ok => exact iff_of_true rfl rfl
  · rename_i few
    exact iff_of_true rfl (.inl (Nat.not_lt.mp few))

end Schemata.Config
