import Mathlib.Data.List.Induction
import Mathlib.Data.List.Nodup
import Mathlib.Tactic.Tauto
import Schemata.Commands.Selection
import Schemata.Proofs.Config.RoundTrip

/-! Names of entries. Of several entries the first one without a name of its own is reported; where there
is none, a name finds the one entry that has it, so that the command line can select every named entry
and no other in its place. -/
namespace Schemata.Config

open Commands

/-- What is wrong with the name of an entry that stands behind others. -/
inductive Misnamed (before : List Entry) (e : Entry) : Error → Prop
  | unnamed : e.name = none → Misnamed before e (.unnamed e.input)
  | repeated {name : String} : e.name = some name → some name ∈ before.map (·.name) →
    Misnamed before e (.duplicate name)

/-- Each entry has a name of its own. -/
def WellNamed (entries : List Entry) : Prop :=
  (∀ e ∈ entries, e.name ≠ none) ∧ (entries.map (·.name)).Nodup

variable {entries before front : List Entry} {e : Entry} {seen : List String} {name text : String}
  {failure : Error} {c : Config}

/-! ## Checking names -/

theorem not_misnamed_iff :
    (∀ failure, ¬ Misnamed before e failure) ↔ e.name ≠ none ∧ e.name ∉ before.map (·.name) := by
  constructor
  · intro sound
    cases named : e.name with
    | none => exact absurd (.unnamed named) (sound _)
    | some name => exact ⟨nofun, fun taken => sound _ (.repeated named taken)⟩
  · rintro ⟨named, fresh⟩ failure (nameless | ⟨same, taken⟩)
    · exact named nameless
    · exact fresh (same ▸ taken)

theorem wellNamed_concat :
    WellNamed (before ++ [e]) ↔ WellNamed before ∧ ∀ failure, ¬ Misnamed before e failure := by
  rw [not_misnamed_iff, WellNamed, WellNamed, List.forall_mem_append, List.forall_mem_singleton,
    List.map_append, List.map_singleton, ← List.concat_eq_append, List.nodup_concat]
  tauto

/-- Entries are well named if none is misnamed behind those in front of it. -/
theorem wellNamed_iff : WellNamed entries ↔
    ∀ before e after failure, entries = before ++ e :: after → ¬ Misnamed before e failure := by
  constructor
  · rintro ⟨named, distinct⟩ before e after failure rfl
    rw [List.map_append, List.map_cons] at distinct
    have fresh : e.name ∉ before.map (·.name) := fun taken =>
      (List.nodup_append.mp distinct).2.2 _ taken _ List.mem_cons_self rfl
    exact not_misnamed_iff.mpr ⟨named e (by simp), fresh⟩ failure
  · intro sound
    induction entries using List.reverseRecOn with
    | nil => exact ⟨nofun, List.nodup_nil⟩
    | append_singleton entries e ih =>
      refine wellNamed_concat.mpr ⟨ih ?_, fun failure => sound entries e [] failure rfl⟩
      rintro before f after failure rfl
      exact sound before f (after ++ [e]) failure (List.append_assoc _ _ _)

theorem checkNames_nil_ok : checkNames [] entries = .ok () ↔ WellNamed entries := by
  simp only [checkNames_ok, List.not_mem_nil, not_false_eq_true, true_and, WellNamed,
    Option.ne_none_iff_exists']

/-- The check goes on behind entries whose names it has seen, up to the first that is misnamed. -/
theorem checkNames_error (known : ∀ name, name ∈ seen ↔ some name ∈ front.map (·.name))
    (wellNamed : WellNamed front) (checked : checkNames seen entries = .error failure) :
    ∃ before e after, entries = before ++ e :: after ∧ WellNamed (front ++ before) ∧
      Misnamed (front ++ before) e failure := by
  induction entries generalizing seen front with
  | nil => contradiction
  | cons e es ih =>
    rw [checkNames] at checked
    split at checked
    · rename_i nameless
      cases checked
      exact ⟨[], e, es, rfl, by rwa [List.append_nil], .unnamed nameless⟩
    · rename_i name named
      split at checked
      · rename_i taken
        cases checked
        refine ⟨[], e, es, rfl, by rwa [List.append_nil], .repeated named ?_⟩
        rw [List.append_nil]
        exact (known name).mp taken
      · rename_i fresh
        have sound : ∀ failure, ¬ Misnamed front e failure := by
          refine not_misnamed_iff.mpr ⟨named ▸ Option.some_ne_none name, ?_⟩
          rw [named, ← known]
          exact fresh
        -- The names seen stay those of the entries in front, which this one now belongs to.
        have more : ∀ other, other ∈ name :: seen ↔
            some other ∈ (front ++ [e]).map (·.name) := by
          intro other
          simp [known, named, or_comm]
        obtain ⟨before, f, after, rfl, placed, misnamed⟩ :=
          ih more (wellNamed_concat.mpr ⟨wellNamed, sound⟩) checked
        rw [List.append_assoc] at placed misnamed
        exact ⟨e :: before, f, after, rfl, placed, misnamed⟩

theorem parse_eq (read : readEntries text.toList = .ok entries) : parse text = ofEntries entries := by
  rw [parse, read]
  rfl

theorem ofEntries_error : ofEntries entries = .error failure ↔
    1 < entries.length ∧ checkNames [] entries = .error failure := by
  unfold ofEntries
  split
  · rename_i several
    rw [and_iff_right several]
    cases checkNames [] entries with
    | error other => simp [Except.map]
    | ok => exact iff_of_false nofun nofun
  · rename_i few
    exact iff_of_false nofun fun both => few both.1

theorem ofEntries_ok (accepted : ofEntries entries = .ok c) : c.entries = entries ∧ c.Valid := by
  unfold ofEntries at accepted
  split at accepted
  · cases checked : checkNames [] entries with
    | error other =>
      rw [checked] at accepted
      contradiction
    | ok =>
      rw [checked] at accepted
      cases accepted
      exact ⟨rfl, .inr (checkNames_nil_ok.mp checked)⟩
  · rename_i few
    cases accepted
    exact ⟨rfl, .inl (Nat.not_lt.mp few)⟩

theorem checkNames_nil_error : (∃ failure, checkNames [] entries = .error failure) ↔
    ∃ before e after failure, entries = before ++ e :: after ∧ Misnamed before e failure := by
  have refused : (∃ failure, checkNames [] entries = .error failure) ↔ ¬ WellNamed entries := by
    rw [← checkNames_nil_ok]
    cases checkNames [] entries with
    | error failure => exact iff_of_true ⟨failure, rfl⟩ nofun
    | ok => exact iff_of_false nofun fun refused => refused rfl
  rw [refused, wellNamed_iff]
  simp only [not_forall, not_not, exists_prop]

theorem valid_of_parse (accepted : parse text = .ok c) : c.Valid := by
  cases read : readEntries text.toList with
  | error failure =>
    rw [parse, read] at accepted
    contradiction
  | ok entries =>
    rw [parse_eq read] at accepted
    exact (ofEntries_ok accepted).2

/-! ## Finding entries by name -/

theorem nodup_names (valid : c.Valid) : (c.entries.map (·.name)).Nodup := by
  rcases valid with few | ⟨_, distinct⟩
  · match c.entries, few with
    | [], _ => exact List.nodup_nil
    | [e], _ => exact List.nodup_singleton _
  · exact distinct

theorem find?_eq_some_iff (distinct : (c.entries.map (·.name)).Nodup) :
    c.find? name = some e ↔ e ∈ c.entries ∧ e.name = some name := by
  have found_named {e : Entry} (found : c.find? name = some e) :
      e ∈ c.entries ∧ e.name = some name :=
    ⟨List.mem_of_find?_eq_some found,
      beq_iff_eq.mp (List.find?_some (p := fun e : Entry => e.name == some name) found)⟩
  refine ⟨found_named, fun ⟨member, named⟩ => ?_⟩
  have present : (c.find? name).isSome := List.find?_isSome.mpr ⟨e, member, beq_iff_eq.mpr named⟩
  obtain ⟨other, found⟩ := Option.isSome_iff_exists.mp present
  obtain ⟨inside, again⟩ := found_named found
  rw [found, List.inj_on_of_nodup_map distinct inside member (again.trans named.symm)]

theorem selectEntries_some (distinct : (c.entries.map (·.name)).Nodup) {chosen : List Entry} :
    selectEntries c (some name) = .ok chosen ↔
      ∃ e ∈ c.entries, e.name = some name ∧ chosen = [e] := by
  simp only [← and_assoc, ← find?_eq_some_iff distinct, selectEntries]
  cases c.find? name with
  | none => exact iff_of_false nofun nofun
  | some e => simp [eq_comm]

/-- Entries that a text holds are refused exactly if there are several and some entry is misnamed; what
is reported is the first such entry. In a configuration that is accepted, a name finds exactly the entry
with that name, and selects it alone. -/
theorem names_checked (text : String) :
    (∀ entries, readEntries text.toList = .ok entries →
      ((∃ failure, parse text = .error failure) ↔ 1 < entries.length ∧
        ∃ before e after failure, entries = before ++ e :: after ∧ Misnamed before e failure) ∧
      (∀ failure, parse text = .error failure →
        ∃ before e after, entries = before ++ e :: after ∧ WellNamed before ∧
          Misnamed before e failure) ∧
      ∀ c, parse text = .ok c → c.entries = entries) ∧
    ∀ c, parse text = .ok c → ∀ name,
      (∀ e, c.find? name = some e ↔ e ∈ c.entries ∧ e.name = some name) ∧
      ∀ chosen, selectEntries c (some name) = .ok chosen ↔
        ∃ e ∈ c.entries, e.name = some name ∧ chosen = [e] := by
  constructor
  · intro entries read
    simp only [parse_eq read, ofEntries_error, exists_and_left, checkNames_nil_error]
    refine ⟨trivial, fun failure rejected => ?_, fun c accepted => (ofEntries_ok accepted).1⟩
    have start : WellNamed [] := ⟨nofun, List.nodup_nil⟩
    exact checkNames_error (by simp) start rejected.2
  · intro c accepted name
    have distinct := nodup_names (valid_of_parse accepted)
    exact ⟨fun e => find?_eq_some_iff distinct, fun chosen => selectEntries_some distinct⟩

/-- Two entries with names of their own. -/
def paired : Config :=
  ⟨[{ name := some "api", input := "api.ts" }, { name := some "db", input := "db.ts" }]⟩

/-- The second entry has no name, and the third has the name of the first. -/
def tripled : Config :=
  ⟨[{ name := some "api", input := "api.ts" }, { input := "db.ts" },
    { name := some "api", input := "web.ts" }]⟩

theorem names_checked_tripled :
    (readEntries tripled.print.toList = .ok tripled.entries ∧
      ∃ failure, parse tripled.print = .error failure) ∧
    parse paired.print = .ok paired ∧
      selectEntries paired (some "db") = .ok [{ name := some "db", input := "db.ts" }] := by
  have read := readEntries_print tripled
  have refused := ((names_checked tripled.print).1 _ read).1
  have accepted : parse paired.print = .ok paired :=
    (parse_eq (readEntries_print paired)).trans (by decide)
  have selected := ((names_checked paired.print).2 paired accepted "db").2
  refine ⟨⟨read, refused.mpr ⟨by decide, ?_⟩⟩, accepted, (selected _).mpr ?_⟩
  · exact ⟨[_], { input := "db.ts" }, [_], .unnamed "db.ts", rfl, .unnamed rfl⟩
  · exact ⟨_, by decide, rfl, rfl⟩

end Schemata.Config
