import Schemata.Commands.Execution
import Schemata.Proofs.Commands.Independence
import Schemata.Proofs.Generation.Completeness

/-! What the code of a strict call says. It is two where the entries are refused or one of them
fails, else one where a declaration has no constant, and zero otherwise; then each module that is
delivered exports a constant for every declaration that its entry looks at. -/
namespace Schemata.Commands

open Files Schemata.Path Report Generation

/-- A text can be written into a file, and then the file holds it. -/
def Places (t : Tree) (path text : String) : Prop :=
  ∃ u, t.run (writeWithin path text) = (.ok (), u) ∧
    u.content? (location path.toList) = some text.toUTF8

theorem mapError_ok {ε δ α : Type} {result : Except ε α} {f : ε → δ} {a : α} :
    result.mapError f = .ok a ↔ result = .ok a := by
  cases result <;> simp [Except.mapError]

/-! ## Outcomes of entries -/

namespace EntryRun

/-- The source that an entry finds, and what is generated from it. -/
structure Yields (root : String) (e : Config.Entry) (t : Tree) (options : Options)
    (source : String) (g : Generation) : Prop where
  read : t.readText (e.inputPath root).toList = .ok source
  filtered : ∃ filter, e.nameFilter = .ok filter ∧
    options = EntryRun.options e (e.inputPath root) filter
  generated : Generation.ofSource options source = .ok g

/-- Why an entry fails on the tree that it finds. -/
inductive Fails (root : String) (e : Config.Entry) (t : Tree) : Prop
  | unreadable {failure : Files.Failure}
      (unread : t.readText (e.inputPath root).toList = .error failure)
  | malformed {pattern : Glob.InvalidPattern} (refused : e.nameFilter = .error pattern)
  | ungenerated {source : String} {filter : Glob.NameFilter} {failure : Generation.Failure}
      (read : t.readText (e.inputPath root).toList = .ok source)
      (filtered : e.nameFilter = .ok filter)
      (failed : Generation.ofSource (EntryRun.options e (e.inputPath root) filter) source =
        .error failure)
  /-- A test module has nothing to import from. -/
  | untested (unnamed : e.output = none) (asked : e.assertions ≠ none)
  | unwritten {options : Options} {source message : String} {g : Generation}
      {files : List (String × String)} (yields : Yields root e t options source g)
      (listed : products root e g = .ok files)
      (failed : (t.run (writeAll files)).1 = .error message)

variable {root source path message : String} {e : Config.Entry} {t : Tree}
  {options other : Options} {again : String} {g h : Generation} {files : List (String × String)}

theorem generation_ok_iff : generation root e source = .ok g ↔ ∃ filter,
    e.nameFilter = .ok filter ∧
      Generation.ofSource (EntryRun.options e (e.inputPath root) filter) source = .ok g := by
  unfold generation
  cases e.nameFilter with
  | error pattern => simp [Except.mapError, bind, Except.bind]
  | ok filter => simp [Except.mapError.eq_2, bind, Except.bind, mapError_ok]

theorem Yields.generation_eq (yields : Yields root e t options source g) :
    generation root e source = .ok g := by
  obtain ⟨filter, filtered, rfl⟩ := yields.filtered
  exact generation_ok_iff.mpr ⟨filter, filtered, yields.generated⟩

/-- What an entry yields is settled by the tree that it finds. -/
theorem Yields.unique (first : Yields root e t options source g)
    (second : Yields root e t other again h) : options = other ∧ source = again ∧ g = h := by
  obtain ⟨filter, filtered, rfl⟩ := first.filtered
  obtain ⟨filter', filtered', rfl⟩ := second.filtered
  obtain rfl := Except.ok.inj (filtered.symm.trans filtered')
  obtain rfl := Except.ok.inj (first.read.symm.trans second.read)
  exact ⟨rfl, rfl, Except.ok.inj (first.generated.symm.trans second.generated)⟩

theorem products_error (refused : products root e g = .error message) :
    e.output = none ∧ e.assertions ≠ none := by
  unfold products at refused
  split at refused
  · cases refused
  · rename_i unnamed asked
    rw [Config.Entry.outputPath, Option.map_eq_none_iff] at unnamed
    refine ⟨unnamed, fun absent => ?_⟩
    rw [Config.Entry.assertionsPath, absent] at asked
    cases asked
  · cases refused
  · cases refused

/-- Without an output there is nothing that a test module could import. -/
theorem products_of_unnamed (unnamed : e.output = none) (asked : e.assertions ≠ none) :
    ∃ message, products root e g = .error message := by
  obtain ⟨file, found⟩ := Option.ne_none_iff_exists'.mp asked
  rw [products, Config.Entry.outputPath, Config.Entry.assertionsPath, unnamed, found]
  exact ⟨_, rfl⟩

/-- The module of validators is written first. -/
theorem products_output (listed : products root e g = .ok files)
    (named : e.outputPath root = some path) :
    ∃ rest, files = (path, validators root e g) :: rest := by
  unfold products at listed
  rw [named] at listed
  split at listed
  · contradiction
  · contradiction
  · rename_i same _
    cases same
    exact ⟨[], (Except.ok.inj listed).symm⟩
  · rename_i same _
    cases same
    exact ⟨_, (Except.ok.inj listed).symm⟩

theorem places_of_writeAll {text : String} {rest : List (String × String)}
    (written : (t.run (writeAll ((path, text) :: rest))).1 = .ok ()) : Places t path text := by
  rw [writeAll, Tree.run_bind] at written
  rcases writeWithin_content? t path text with ⟨message, u, failed, _⟩ | ⟨u, done, content⟩
  · rw [failed] at written
    cases written
  · refine ⟨u, done, ?_⟩
    rw [content, if_pos rfl]

/-- An entry that is generated, with its module in the file of its choice. -/
structure Succeeds (root : String) (e : Config.Entry) (t : Tree) (options : Options)
    (source : String) (g : Generation) : Prop where
  yields : Yields root e t options source g
  run : (t.run (ofEntry root e)).1 = done root e g
  placed : ∀ path, e.outputPath root = some path → Places t path (validators root e g)

/-- Once the files of an entry are known, only the writing decides. -/
theorem Yields.run_eq (yields : Yields root e t options source g)
    (listed : products root e g = .ok files) : (t.run (ofEntry root e)).1 =
      match (t.run (writeAll files)).1 with
      | .error message => failed e message
      | .ok () => done root e g := by
  rw [ofEntry, Tree.run_bind, Tree.run_read, yields.read]
  dsimp only
  unfold ofSource
  rw [yields.generation_eq]
  dsimp only
  rw [listed]
  dsimp only
  rw [Tree.run_bind]
  cases (t.run (writeAll files)).1 <;> rfl

/-- An entry fails where nothing that it could read gives files to write. -/
theorem run_of_no_products (refused : ∀ source g,
      t.readText (e.inputPath root).toList = .ok source → generation root e source = .ok g →
        ∃ message, products root e g = .error message) :
    ∃ message, (t.run (ofEntry root e)).1 = failed e message := by
  rw [ofEntry, Tree.run_bind, Tree.run_read]
  cases read : t.readText (e.inputPath root).toList with
  | error failure => exact ⟨_, rfl⟩
  | ok source =>
    dsimp only
    unfold ofSource
    cases generated : generation root e source with
    | error message => exact ⟨message, rfl⟩
    | ok g =>
      obtain ⟨message, refusal⟩ := refused source g read generated
      dsimp only
      rw [refusal]
      exact ⟨message, rfl⟩

theorem run_of_fails (fails : Fails root e t) :
    ∃ message, (t.run (ofEntry root e)).1 = failed e message := by
  cases fails with
  | unreadable unread =>
    refine run_of_no_products fun source g read _ => ?_
    cases unread.symm.trans read
  | malformed refused =>
    refine run_of_no_products fun source g _ generated => ?_
    obtain ⟨filter, filtered, _⟩ := generation_ok_iff.mp generated
    cases refused.symm.trans filtered
  | ungenerated read filtered failed =>
    refine run_of_no_products fun source g also generated => ?_
    obtain rfl := Except.ok.inj (read.symm.trans also)
    obtain ⟨filter, again, succeeded⟩ := generation_ok_iff.mp generated
    obtain rfl := Except.ok.inj (filtered.symm.trans again)
    cases failed.symm.trans succeeded
  | untested unnamed asked =>
    exact run_of_no_products fun source g _ _ => products_of_unnamed unnamed asked
  | unwritten yields listed failed =>
    rw [yields.run_eq listed, failed]
    exact ⟨_, rfl⟩

/-- An entry that can be generated fails, or it succeeds. -/
theorem Yields.fails_or_succeeds (yields : Yields root e t options source g) :
    Fails root e t ∨ Succeeds root e t options source g := by
  cases listed : products root e g with
  | error message =>
    obtain ⟨unnamed, asked⟩ := products_error listed
    exact .inl (.untested unnamed asked)
  | ok files =>
    cases written : (t.run (writeAll files)).1 with
    | error message => exact .inl (.unwritten yields listed written)
    | ok =>
      refine .inr ⟨yields, by rw [yields.run_eq listed, written], fun path named => ?_⟩
      obtain ⟨rest, rfl⟩ := products_output listed named
      exact places_of_writeAll written

/-- An entry fails, or it is generated. -/
theorem fails_or_succeeds (root : String) (e : Config.Entry) (t : Tree) :
    Fails root e t ∨ ∃ options source g, Succeeds root e t options source g := by
  cases read : t.readText (e.inputPath root).toList with
  | error failure => exact .inl (.unreadable read)
  | ok source =>
    cases filtered : e.nameFilter with
    | error pattern => exact .inl (.malformed filtered)
    | ok filter =>
      cases generated : Generation.ofSource (EntryRun.options e (e.inputPath root) filter)
          source with
      | error failure => exact .inl (.ungenerated read filtered generated)
      | ok g =>
        have yields : Yields root e t _ source g := ⟨read, ⟨filter, filtered, rfl⟩, generated⟩
        exact yields.fails_or_succeeds.imp_right fun succeeds => ⟨_, source, g, succeeds⟩

theorem failed_iff : (t.run (ofEntry root e)).1.report.isFailed = true ↔ Fails root e t := by
  constructor
  · intro reported
    rcases fails_or_succeeds root e t with fails | ⟨options, source, g, succeeds⟩
    · exact fails
    · rw [succeeds.run] at reported
      cases reported
  · intro fails
    obtain ⟨message, run⟩ := run_of_fails fails
    rw [run]
    rfl

/-- What is unresolved about an entry that is generated is a declaration without a constant. -/
theorem unresolved_iff (generated : ¬ Fails root e t) :
    (t.run (ofEntry root e)).1.report.isUnresolved = true ↔
      ∃ options source g d, Yields root e t options source g ∧ Omitted options source g d := by
  obtain ⟨options, source, g, succeeds⟩ := (fails_or_succeeds root e t).resolve_left generated
  have reported : (t.run (ofEntry root e)).1.report.isUnresolved = !g.errors.isEmpty := by
    rw [succeeds.run]
    rfl
  rw [reported, Bool.not_eq_true', List.isEmpty_eq_false_iff,
    errors_ne_nil_iff succeeds.yields.generated]
  constructor
  · rintro ⟨d, omitted⟩
    exact ⟨options, source, g, d, succeeds.yields, omitted⟩
  · rintro ⟨options, source, h, d, yields, omitted⟩
    obtain ⟨rfl, rfl, rfl⟩ := succeeds.yields.unique yields
    exact ⟨d, omitted⟩

theorem printed_of_named (named : e.output ≠ none) :
    (t.run (ofEntry root e)).1.printed = none := by
  rcases fails_or_succeeds root e t with fails | ⟨options, source, g, succeeds⟩
  · obtain ⟨message, run⟩ := run_of_fails fails
    rw [run]
    rfl
  · rw [succeeds.run]
    exact if_neg fun unnamed => named (Option.isNone_iff_eq_none.mp unnamed)

theorem Succeeds.printed (succeeds : Succeeds root e t options source g)
    (unnamed : e.output = none) :
    (t.run (ofEntry root e)).1.printed = some (validators root e g) := by
  rw [succeeds.run]
  exact if_pos (Option.isNone_iff_eq_none.mpr unnamed)

end EntryRun

/-! ## Entries in turn -/

/-- Entries with the trees that they find, one after the other. -/
def turns (root : String) : List Config.Entry → Tree → List (Config.Entry × Tree)
  | [], _ => []
  | e :: rest, t => (e, t) :: turns root rest (t.run (EntryRun.ofEntry root e)).2

variable {root text : String} {e : Config.Entry} {t u : Tree} {entries : List Config.Entry}
  {request : GenerateRequest} {runs : List EntryRun}

theorem turns_entries (root : String) (entries : List Config.Entry) (t : Tree) :
    (turns root entries t).map (·.1) = entries := by
  induction entries generalizing t with
  | nil => rfl
  | cons e rest ih => exact congrArg (e :: ·) (ih _)

theorem run_mapM_ofEntry (root : String) (entries : List Config.Entry) (t : Tree) :
    (t.run (entries.mapM (EntryRun.ofEntry root))).1 =
      (turns root entries t).map fun turn => (turn.2.run (EntryRun.ofEntry root turn.1)).1 := by
  induction entries generalizing t with
  | nil => rfl
  | cons e rest ih =>
    rw [List.mapM_cons, Tree.run_bind, Tree.run_bind]
    exact congrArg (_ :: ·) (ih _)

/-- Some entry is reported so exactly if its turn comes to that. -/
theorem any_report_iff (p : EntryReport → Bool) :
    ((t.run (entries.mapM (EntryRun.ofEntry root))).1.map (·.report)).any p = true ↔
      ∃ e u, (e, u) ∈ turns root entries t ∧
        p (u.run (EntryRun.ofEntry root e)).1.report = true := by
  simp only [run_mapM_ofEntry, List.any_eq_true, List.mem_map]
  constructor
  · rintro ⟨_, ⟨_, ⟨turn, found, rfl⟩, rfl⟩, holds⟩
    exact ⟨turn.1, turn.2, found, holds⟩
  · rintro ⟨e, u, found, holds⟩
    exact ⟨_, ⟨_, ⟨(e, u), found, rfl⟩, rfl⟩, holds⟩

theorem hasFailures_iff : GenerateReport.hasFailures ⟨"generate",
      (t.run (entries.mapM (EntryRun.ofEntry root))).1.map (·.report)⟩ = true ↔
    ∃ e u, (e, u) ∈ turns root entries t ∧ EntryRun.Fails root e u := by
  simp only [GenerateReport.hasFailures, any_report_iff, EntryRun.failed_iff]

/-- What is unresolved where no entry fails. -/
theorem hasUnresolved_iff (generated : ¬ ∃ e u, (e, u) ∈ turns root entries t ∧
      EntryRun.Fails root e u) : GenerateReport.hasUnresolved ⟨"generate",
      (t.run (entries.mapM (EntryRun.ofEntry root))).1.map (·.report)⟩ = true ↔
    ∃ e u, (e, u) ∈ turns root entries t ∧ ∃ options source g d,
      EntryRun.Yields root e u options source g ∧ Omitted options source g d := by
  rw [GenerateReport.hasUnresolved, any_report_iff]
  refine exists_congr fun e => exists_congr fun u => and_congr_right fun found => ?_
  exact EntryRun.unresolved_iff fun fails => generated ⟨e, u, found, fails⟩

theorem filterMap_printed_eq_nil (root : String) {part : List (Config.Entry × Tree)}
    (named : (part.map (·.1)).filter (·.output.isNone) = []) :
    part.filterMap (fun turn => (turn.2.run (EntryRun.ofEntry root turn.1)).1.printed) = [] := by
  rw [List.filterMap_eq_nil_iff]
  intro turn member
  apply EntryRun.printed_of_named
  intro none
  refine List.filter_eq_nil_iff.mp named turn.1 (List.mem_map_of_mem member) ?_
  rw [none]
  rfl

/-- The only entry without an output is the only one that is printed. -/
theorem printed_alone (few : (entries.filter (·.output.isNone)).length ≤ 1)
    (found : (e, u) ∈ turns root entries t) (unnamed : e.output = none) :
    (t.run (entries.mapM (EntryRun.ofEntry root))).1.filterMap (·.printed) =
      (u.run (EntryRun.ofEntry root e)).1.printed.toList := by
  obtain ⟨before, after, split⟩ := List.append_of_mem found
  have here : e.output.isNone = true := Option.isNone_iff_eq_none.mpr unnamed
  -- This entry is counted, so that nothing is left for those on its sides.
  have counted := few
  rw [← turns_entries root entries t, split, List.map_append, List.map_cons, List.filter_append,
    List.length_append, List.filter_cons, if_pos here, List.length_cons] at counted
  have front := filterMap_printed_eq_nil root (List.length_eq_zero_iff.mp
    (show ((before.map (·.1)).filter (·.output.isNone)).length = 0 by omega))
  have back := filterMap_printed_eq_nil root (List.length_eq_zero_iff.mp
    (show ((after.map (·.1)).filter (·.output.isNone)).length = 0 by omega))
  rw [run_mapM_ofEntry, split, List.filterMap_map, List.filterMap_append, List.filterMap_cons]
  simp only [Function.comp_def, front, back]
  cases (u.run (EntryRun.ofEntry root e)).1.printed <;> rfl

/-- The code of a strict call weighs failures before what is unresolved. -/
theorem code_generateOutput (json verbose : Bool) (runs : List EntryRun) :
    (generateOutput json verbose true runs).code =
      if GenerateReport.hasFailures ⟨"generate", runs.map (·.report)⟩ = true then 2
      else if GenerateReport.hasUnresolved ⟨"generate", runs.map (·.report)⟩ = true then 1
      else 0 := by
  unfold generateOutput exitCode
  cases json with
  | false => rfl
  | true =>
    dsimp only
    rw [if_pos rfl]
    split <;> rfl

theorem stdout_generateOutput (json verbose strict : Bool)
    (printed : runs.filterMap (·.printed) = [text]) :
    (generateOutput json verbose strict runs).stdout = text := by
  have joined : String.join [text] = text := String.empty_append
  have any : runs.any (·.printed.isSome) = true := by
    have listed : text ∈ runs.filterMap (·.printed) := printed ▸ List.mem_singleton.mpr rfl
    obtain ⟨run, member, found⟩ := List.mem_filterMap.mp listed
    exact List.any_eq_true.mpr ⟨run, member, Option.isSome_of_eq_some found⟩
  unfold generateOutput
  rw [printed, joined, any]
  cases json <;> rfl

/-! ## Strict calls -/

/-- The entries that a request takes, before the command line amends them. -/
def GenerateRequest.taken (r : GenerateRequest) (root : String) (t : Tree) :
    Except Refusal (List Config.Entry) :=
  match r.input with
  | some input => .ok [{ input, output := r.output }]
  | none => (t.run (loadConfig root)).1 >>= r.choose

/-- Why no entry is generated. -/
inductive Refuses (root : String) (request : GenerateRequest) (t : Tree) : Prop
  | unselected {refusal : Refusal} (refused : request.taken root t = .error refusal)
  | sharedAssertions {entries : List Config.Entry} (taken : request.taken root t = .ok entries)
      (asked : request.assertions.isSome = true) (several : 1 < entries.length)
  | severalWithoutOutput {entries : List Config.Entry}
      (taken : request.taken root t = .ok entries)
      (several : 1 < (entries.filter (·.output.isNone)).length)

/-- Why the code is two. -/
inductive Stops (root : String) (request : GenerateRequest) (t : Tree) : Prop
  | refused (refuses : Refuses root request t)
  | failed {entries : List Config.Entry} {e : Config.Entry} {u : Tree}
      (selected : (t.run (request.entries root)).1 = .ok entries)
      (found : (e, u) ∈ turns root entries t) (fails : EntryRun.Fails root e u)

/-- Why the code is one: a declaration that an entry looks at has no constant. -/
inductive Lacks (root : String) (request : GenerateRequest) (t : Tree) : Prop
  | omitted {entries : List Config.Entry} {e : Config.Entry} {u : Tree} {options : Options}
      {source : String} {g : Generation} {d : TypeScript.Declaration}
      (selected : (t.run (request.entries root)).1 = .ok entries)
      (found : (e, u) ∈ turns root entries t) (yields : EntryRun.Yields root e u options source g)
      (omitted : Omitted options source g d)

/-- The module of an entry is in the file of its choice, or else it is what is printed. -/
inductive Delivers (root : String) (e : Config.Entry) (t : Tree) (output : Output)
    (text : String) : Prop
  | printed (unnamed : e.output = none) (printed : output.stdout = text)
  | written {path : String} (named : e.outputPath root = some path)
      (placed : Places t path text)

/-- Every entry delivers a module with one constant for each declaration that it looks at. -/
def Complete (root : String) (request : GenerateRequest) (t : Tree) (output : Output) : Prop :=
  ∃ entries, (t.run (request.entries root)).1 = .ok entries ∧
    ∀ e u, (e, u) ∈ turns root entries t → ∃ options source g text,
      EntryRun.Yields root e u options source g ∧ Delivers root e u output text ∧
        CompleteText options source text g

/-- What the code of a strict call says. -/
structure Strict (root : String) (request : GenerateRequest) (t : Tree) (output : Output) :
    Prop where
  two : output.code = 2 ↔ Stops root request t
  one : output.code = 1 ↔ ¬ Stops root request t ∧ Lacks root request t
  zero : output.code = 0 ↔ ¬ Stops root request t ∧ ¬ Lacks root request t
  complete : output.code = 0 → Complete root request t output

theorem run_entries_eq (root : String) (request : GenerateRequest) (t : Tree) :
    (t.run (request.entries root)).1 = request.taken root t >>= request.amendAll := by
  unfold GenerateRequest.entries GenerateRequest.taken
  cases request.input with
  | some input => rfl
  | none =>
    dsimp only
    rw [Tree.run_bind]
    cases (t.run (loadConfig root)).1 <;> rfl

theorem refuses_iff : Refuses root request t ↔
    ∃ refusal, (t.run (request.entries root)).1 = .error refusal := by
  rw [run_entries_eq]
  constructor
  · intro refuses
    cases refuses with
    | unselected refused => exact ⟨_, by rw [refused]; rfl⟩
    | sharedAssertions taken asked several =>
      refine ⟨.sharedAssertions, ?_⟩
      rw [taken]
      exact if_pos (by simp [asked, several])
    | severalWithoutOutput taken several =>
      rw [taken]
      change ∃ refusal, GenerateRequest.amendAll _ _ = _
      unfold GenerateRequest.amendAll
      rw [if_pos several]
      split <;> exact ⟨_, rfl⟩
  · rintro ⟨refusal, refused⟩
    cases taken : request.taken root t with
    | error refusal => exact .unselected taken
    | ok entries =>
      rw [taken] at refused
      change GenerateRequest.amendAll _ _ = _ at refused
      unfold GenerateRequest.amendAll at refused
      split at refused
      · rename_i both
        rw [Bool.and_eq_true, decide_eq_true_eq] at both
        exact .sharedAssertions taken both.1 both.2
      · split at refused
        · exact .severalWithoutOutput taken ‹_›
        · cases refused

/-- At most one of the entries that are selected is printed. -/
theorem selected_unnamed (selected : (t.run (request.entries root)).1 = .ok entries) :
    (entries.filter (·.output.isNone)).length ≤ 1 := by
  rw [run_entries_eq] at selected
  cases taken : request.taken root t with
  | error refusal =>
    rw [taken] at selected
    cases selected
  | ok others =>
    rw [taken] at selected
    change GenerateRequest.amendAll _ _ = _ at selected
    unfold GenerateRequest.amendAll at selected
    split at selected
    · cases selected
    · split at selected
      · cases selected
      · rename_i few
        cases selected
        rw [List.filter_map, List.length_map]
        exact Nat.le_of_not_lt few

theorem stops_iff (selected : (t.run (request.entries root)).1 = .ok entries) :
    Stops root request t ↔ ∃ e u, (e, u) ∈ turns root entries t ∧ EntryRun.Fails root e u := by
  constructor
  · intro stops
    cases stops with
    | refused refuses =>
      obtain ⟨refusal, refused⟩ := refuses_iff.mp refuses
      cases selected.symm.trans refused
    | failed also found fails =>
      obtain rfl := Except.ok.inj (selected.symm.trans also)
      exact ⟨_, _, found, fails⟩
  · rintro ⟨e, u, found, fails⟩
    exact .failed selected found fails

theorem lacks_iff (selected : (t.run (request.entries root)).1 = .ok entries) :
    Lacks root request t ↔ ∃ e u, (e, u) ∈ turns root entries t ∧ ∃ options source g d,
      EntryRun.Yields root e u options source g ∧ Omitted options source g d := by
  constructor
  · rintro ⟨also, found, yields, omitted⟩
    obtain rfl := Except.ok.inj (selected.symm.trans also)
    exact ⟨_, _, found, _, _, _, _, yields, omitted⟩
  · rintro ⟨e, u, found, options, source, g, d, yields, omitted⟩
    exact .omitted selected found yields omitted

theorem delivers_of_succeeds {options : Options} {source : String} {g : Generation}
    (selected : (t.run (request.entries root)).1 = .ok entries)
    (found : (e, u) ∈ turns root entries t)
    (succeeds : EntryRun.Succeeds root e u options source g) (json verbose strict : Bool) :
    Delivers root e u (generateOutput json verbose strict
      (t.run (entries.mapM (EntryRun.ofEntry root))).1) (EntryRun.validators root e g) := by
  cases output : e.output with
  | none =>
    have printed := printed_alone (selected_unnamed selected) found output
    rw [succeeds.printed output] at printed
    exact .printed output (stdout_generateOutput json verbose strict printed)
  | some file =>
    have named : e.outputPath root = some (Config.Entry.resolve root file) := by
      rw [Config.Entry.outputPath, output]
      rfl
    exact .written named (succeeds.placed _ named)

/-- Where no entry fails and none lacks a constant, every module is delivered with all of them. -/
theorem complete_of_none (selected : (t.run (request.entries root)).1 = .ok entries)
    (unstopped : ¬ Stops root request t) (unlacking : ¬ Lacks root request t)
    (json verbose strict : Bool) : Complete root request t (generateOutput json verbose strict
      (t.run (entries.mapM (EntryRun.ofEntry root))).1) := by
  refine ⟨entries, selected, fun e u found => ?_⟩
  have generated : ¬ EntryRun.Fails root e u :=
    fun fails => unstopped (.failed selected found fails)
  obtain ⟨options, source, g, succeeds⟩ :=
    (EntryRun.fails_or_succeeds root e u).resolve_left generated
  have none : g.errors = [] := by
    by_contra some
    obtain ⟨d, omitted⟩ := (errors_ne_nil_iff succeeds.yields.generated).mp some
    exact unlacking (.omitted selected found succeeds.yields omitted)
  exact ⟨options, source, g, EntryRun.validators root e g, succeeds.yields,
    delivers_of_succeeds selected found succeeds json verbose strict,
    completeText succeeds.yields.generated none _⟩

theorem Strict.of_stops {output : Output} (code : output.code = 2)
    (stops : Stops root request t) : Strict root request t output where
  two := iff_of_true code stops
  one := by simp [code, stops]
  zero := by simp [code, stops]
  complete := by simp [code]

theorem strict_generate (strict : request.strict = true) (json verbose : Bool) :
    Strict root request t (t.run (generate root json verbose request)).1 := by
  rw [run_generate, strict]
  cases selected : (t.run (request.entries root)).1 with
  | error refusal => exact .of_stops rfl (.refused (refuses_iff.mpr ⟨refusal, selected⟩))
  | ok entries =>
    dsimp only
    have code := code_generateOutput json verbose (t.run (entries.mapM (EntryRun.ofEntry root))).1
    by_cases stops : Stops root request t
    · rw [if_pos (hasFailures_iff.mpr ((stops_iff selected).mp stops))] at code
      exact .of_stops code stops
    · have generated := (not_congr (stops_iff selected)).mp stops
      have unresolved := (hasUnresolved_iff generated).trans (lacks_iff selected).symm
      rw [if_neg (hasFailures_iff.not.mpr generated)] at code
      by_cases lacks : Lacks root request t
      · rw [if_pos (unresolved.mpr lacks)] at code
        constructor <;> simp [code, stops, lacks]
      · rw [if_neg (unresolved.not.mpr lacks)] at code
        exact {
          two := by simp [code, stops]
          one := by simp [code, lacks]
          zero := by simp [code, stops, lacks]
          complete := fun _ => complete_of_none selected stops lacks json verbose true }

theorem run_generate_of {arguments : List String} {i : Invocation}
    (accepted : Call.ofArguments arguments = .ok (.run i)) (asked : i.command = .generate request)
    (root : String) (t : Tree) : (t.run (run root arguments)).1 =
      .ok (t.run (generate root i.json i.verbose request)).1 := by
  unfold run
  rw [accepted]
  dsimp only
  unfold execute
  rw [asked]
  rfl

/-- A strict call has code two if the entries are refused or one of them fails, else one if some
declaration that an entry looks at has no constant, and else zero; then every module is delivered,
and exports exactly one constant for each of these declarations. -/
theorem strict_code {arguments : List String} {i : Invocation}
    (accepted : Call.ofArguments arguments = .ok (.run i)) (asked : i.command = .generate request)
    (strict : request.strict = true) (root : String) (t : Tree) :
    ∃ output, (t.run (run root arguments)).1 = .ok output ∧ Strict root request t output :=
  ⟨_, run_generate_of accepted asked root t, strict_generate strict i.json i.verbose⟩

/-- Two entries, of which the second has two types that need each other. -/
def crossed : Tree := project
  [(Config.fileName, "[[\"a\", \"a.ts\", \"gen/a.ts\"], [\"b\", \"b.ts\", \"gen/b.ts\"]]"),
    ("a.ts", "type A = string;\n"), ("b.ts", "type B = C;\ntype C = B;\n")]

theorem strict_code_crossed :
    let request : GenerateRequest := { all := true, strict := true }
    (∃ output, (neighbours.run (run "/p" ["generate", "--all", "--strict"])).1 = .ok output ∧
      output.code = 0 ∧ Complete "/p" request neighbours output) ∧
    ∃ output, (crossed.run (run "/p" ["generate", "--all", "--strict"])).1 = .ok output ∧
      output.code = 1 ∧ ¬ Stops "/p" request crossed ∧ Lacks "/p" request crossed := by
  intro request
  have accepted : Call.ofArguments ["generate", "--all", "--strict"] =
      .ok (.run { command := .generate request }) := by
    rw [Call.ofArguments, Arguments.readFront]
    exact eq_ok_of_toOption (by decide +kernel)
  -- The code is computed behind the reading of the command line.
  have ended {t : Tree} {output : Output}
      (ran : (t.run (run "/p" ["generate", "--all", "--strict"])).1 = .ok output) :
      output = (t.run (generate "/p" false false request)).1 :=
    Except.ok.inj (ran.symm.trans (run_generate_of accepted rfl "/p" t))
  constructor
  · obtain ⟨output, ran, strict⟩ := strict_code accepted rfl rfl "/p" neighbours
    have zero : output.code = 0 := by
      rw [ended ran]
      decide +kernel
    exact ⟨output, ran, zero, strict.complete zero⟩
  · obtain ⟨output, ran, strict⟩ := strict_code accepted rfl rfl "/p" crossed
    have one : output.code = 1 := by
      rw [ended ran]
      decide +kernel
    exact ⟨output, ran, one, strict.one.mp one⟩

end Schemata.Commands
