import Schemata.Commands.Generate
import Schemata.Proofs.Files.Run

/-! What the command `generate` changes. A file is written only after the modules of its entry have
been computed, and nothing is written but the files of an entry; yet a validators module stays where
the test module behind it could not be written, and no file is looked at for who else uses it. -/
namespace Schemata.Commands

open Files Schemata.Path Report

variable {t : Tree} {root : String}

namespace EntryRun

/-- The files of an entry that a run of it may have changed. -/
inductive Touches (root : String) (e : Config.Entry) (run : EntryRun) : Place → Prop
  | output {path : String} (generated : run.report.status = .generated)
      (named : e.outputPath root = some path) : Touches root e run (location path.toList)
  | assertions {path : String} (generated : run.report.status = .generated)
      (named : e.assertionsPath root = some path) : Touches root e run (location path.toList)
  /-- The output of an entry that failed on its other file. -/
  | abandoned {path file message : String} (reported : run = failed e message)
      (unwritable : Unwritable file message) (named : e.outputPath root = some path)
      (behind : e.assertionsPath root = some file) : Touches root e run (location path.toList)

/-- Files are written up to the first that fails. -/
theorem writeAll_content? (t : Tree) (files : List (String × String)) :
    ((t.run (writeAll files)).1 = .ok () ∧ ∀ q, (t.run (writeAll files)).2.content? q = t.content? q ∨
      ∃ file ∈ files, q = location file.1.toList) ∨
    ∃ front file behind message, files = front ++ file :: behind ∧
      (t.run (writeAll files)).1 = .error message ∧ Unwritable file.1 message ∧
      ∀ q, (t.run (writeAll files)).2.content? q = t.content? q ∨
        ∃ file ∈ front, q = location file.1.toList := by
  induction files generalizing t with
  | nil => exact .inl ⟨rfl, fun _ => .inl rfl⟩
  | cons file rest ih =>
    obtain ⟨path, text⟩ := file
    rw [writeAll, Tree.run_bind]
    rcases writeWithin_content? t path text with
      ⟨message, u, failed, unwritable, kept⟩ | ⟨u, written, content⟩
    · rw [failed]
      exact .inr ⟨[], _, rest, message, rfl, rfl, unwritable, fun q => .inl (kept q)⟩
    · rw [written]
      -- What is not changed later is as the first file has left it.
      have first (q : Place) (front : List (String × String)) (v : Tree)
          (later : v.content? q = u.content? q ∨ ∃ file ∈ front, q = location file.1.toList) :
          v.content? q = t.content? q ∨
            ∃ file ∈ (path, text) :: front, q = location file.1.toList := by
        rcases later with same | ⟨file, member, place⟩
        · rw [same, content]
          split
          · rename_i here
            exact .inr ⟨_, List.mem_cons_self, here⟩
          · exact .inl rfl
        · exact .inr ⟨file, List.mem_cons_of_mem _ member, place⟩
      rcases ih u with ⟨done, kept⟩ | ⟨front, file, behind, message, rfl, failed, unwritable, kept⟩
      · exact .inl ⟨done, fun q => first q rest _ (kept q)⟩
      · exact .inr ⟨(path, text) :: front, file, behind, message, rfl, failed, unwritable,
          fun q => first q front _ (kept q)⟩

theorem products_named {e : Config.Entry} {g : Generation} {files : List (String × String)}
    {file : String × String} (listed : products root e g = .ok files) (member : file ∈ files) :
    e.outputPath root = some file.1 ∨ e.assertionsPath root = some file.1 := by
  unfold products at listed
  split at listed
  · cases listed
    cases member
  · cases listed
  · rename_i output _
    cases listed
    exact .inl (List.mem_singleton.mp member ▸ output)
  · rename_i output assertions
    cases listed
    rcases List.mem_cons.mp member with rfl | last
    · exact .inl output
    · exact .inr (List.mem_singleton.mp last ▸ assertions)

/-- In front of a file of an entry stands its output only, behind which its test module comes. -/
theorem products_front {e : Config.Entry} {g : Generation} {front behind : List (String × String)}
    {before file : String × String} (listed : products root e g = .ok (front ++ file :: behind))
    (member : before ∈ front) :
    e.outputPath root = some before.1 ∧ e.assertionsPath root = some file.1 := by
  obtain ⟨first, rest, rfl⟩ := List.exists_cons_of_ne_nil (List.ne_nil_of_mem member)
  unfold products at listed
  split at listed
  · cases listed
  · cases listed
  · cases rest <;> cases listed
  · rename_i output named
    cases rest with
    | nil =>
      cases listed
      exact ⟨List.mem_singleton.mp member ▸ output, named⟩
    | cons second rest => cases rest <;> cases listed

theorem ofSource_content? (t : Tree) (root : String) (e : Config.Entry) (source : String)
    (q : Place) : (t.run (ofSource root e source)).2.content? q = t.content? q ∨
      Touches root e (t.run (ofSource root e source)).1 q := by
  unfold ofSource
  split
  · exact .inl rfl
  · rename_i g _
    split
    · exact .inl rfl
    · rename_i files listed
      rw [Tree.run_bind]
      rcases writeAll_content? t files with
        ⟨written, kept⟩ | ⟨front, file, behind, message, rfl, failed, unwritable, kept⟩
      · rw [written]
        refine (kept q).imp_right fun ⟨file, member, place⟩ => place ▸ ?_
        rcases products_named listed member with named | named
        · exact .output rfl named
        · exact .assertions rfl named
      · rw [failed]
        refine (kept q).imp_right fun ⟨before, member, place⟩ => place ▸ ?_
        obtain ⟨named, next⟩ := products_front listed member
        exact .abandoned rfl unwritable named next

theorem ofEntry_content? (t : Tree) (root : String) (e : Config.Entry) (q : Place) :
    (t.run (ofEntry root e)).2.content? q = t.content? q ∨
      Touches root e (t.run (ofEntry root e)).1 q := by
  rw [ofEntry, Tree.run_bind, Tree.run_read]
  dsimp only
  split
  · exact .inl rfl
  · exact ofSource_content? t root e _ q

/-- Entries are generated one after the other; what is changed in the end, one of them changed. -/
theorem mapM_ofEntry_content? (t : Tree) (root : String) (entries : List Config.Entry)
    (q : Place) : (t.run (entries.mapM (ofEntry root))).2.content? q = t.content? q ∨
      ∃ outcome ∈ entries.zip (t.run (entries.mapM (ofEntry root))).1,
        Touches root outcome.1 outcome.2 q := by
  induction entries generalizing t with
  | nil => exact .inl rfl
  | cons e rest ih =>
    rw [List.mapM_cons, Tree.run_bind, Tree.run_bind]
    change _ ∨ ∃ outcome ∈ (e, (t.run (ofEntry root e)).1) :: List.zip rest _, _
    rcases ih (t.run (ofEntry root e)).2 with same | ⟨outcome, member, touches⟩
    · refine (ofEntry_content? t root e q).imp (fun first => ?_) fun touches => ?_
      · exact same.trans first
      · exact ⟨_, List.mem_cons_self, touches⟩
    · exact .inr ⟨outcome, List.mem_cons_of_mem _ member, touches⟩

end EntryRun

theorem run_entries (t : Tree) (root : String) (request : GenerateRequest) :
    (t.run (request.entries root)).2 = t := by
  unfold GenerateRequest.entries
  split
  · rfl
  · rw [Tree.run_bind, loadConfig, Tree.run_bind, Tree.run_holds]
    dsimp only
    split
    · rfl
    · rw [Tree.run_bind, Tree.run_read]
      dsimp only
      split
      · rfl
      · rw [Tree.run_pure]
        dsimp only
        split <;> rfl

theorem run_generate (t : Tree) (root : String) (json verbose : Bool)
    (request : GenerateRequest) :
    t.run (generate root json verbose request) =
      match (t.run (request.entries root)).1 with
      | .error refusal => (.refused "generate" refusal.message, t)
      | .ok entries =>
        (generateOutput json verbose request.strict
          (t.run (entries.mapM (EntryRun.ofEntry root))).1,
          (t.run (entries.mapM (EntryRun.ofEntry root))).2) := by
  rw [generate, Tree.run_bind, run_entries]
  cases (t.run (request.entries root)).1 <;> rfl

theorem length_mapM_ofEntry (t : Tree) (root : String) (entries : List Config.Entry) :
    (t.run (entries.mapM (EntryRun.ofEntry root))).1.length = entries.length := by
  induction entries generalizing t with
  | nil => rfl
  | cons e rest ih =>
    rw [List.mapM_cons, Tree.run_bind, Tree.run_bind]
    exact congrArg (· + 1) (ih _)

/-- The selected entries with what became of them. -/
def outcomes (root : String) (request : GenerateRequest) (t : Tree) :
    List (Config.Entry × EntryRun) :=
  match (t.run (request.entries root)).1 with
  | .error _ => []
  | .ok entries => entries.zip (t.run (entries.mapM (EntryRun.ofEntry root))).1

/-- A file that differs after `generate` is one that a reported run may have changed: a file of a
generated entry, or the output of an entry that failed on its test module. -/
theorem generate_changes (t : Tree) (root : String) (json verbose : Bool)
    (request : GenerateRequest) :
    (t.run (generate root json verbose request)).1 =
      (match (t.run (request.entries root)).1 with
      | .error refusal => .refused "generate" refusal.message
      | .ok _ =>
        generateOutput json verbose request.strict ((outcomes root request t).map (·.2))) ∧
    ∀ place, (t.run (generate root json verbose request)).2.content? place = t.content? place ∨
      ∃ outcome ∈ outcomes root request t,
        EntryRun.Touches root outcome.1 outcome.2 place := by
  rw [run_generate, outcomes]
  cases (t.run (request.entries root)).1 with
  | error refusal => exact ⟨rfl, fun _ => .inl rfl⟩
  | ok entries =>
    dsimp only
    rw [List.map_snd_zip (Nat.le_of_eq (length_mapM_ofEntry t root entries))]
    exact ⟨rfl, EntryRun.mapM_ofEntry_content? t root entries⟩

/-- Nothing but the files of generated entries differs after `generate`. -/
structure ChangesProductsOnly (root : String) (json verbose : Bool) (request : GenerateRequest)
    (t : Tree) : Prop where
  products : ∀ place,
    (t.run (generate root json verbose request)).2.content? place ≠ t.content? place →
    ∃ outcome ∈ outcomes root request t, outcome.2.report.status = .generated ∧
      ∃ path : String, place = location path.toList ∧
        (outcome.1.outputPath root = some path ∨ outcome.1.assertionsPath root = some path)
  inputs : ∀ outcome ∈ outcomes root request t,
    (t.run (generate root json verbose request)).2.content?
      (location (outcome.1.inputPath root).toList) =
        t.content? (location (outcome.1.inputPath root).toList)
  configuration : (t.run (generate root json verbose request)).2.content?
    (location (configPath root).toList) = t.content? (location (configPath root).toList)
  failures : ∀ outcome ∈ outcomes root request t, outcome.2.report.status = .failed →
    ∀ path : String,
      outcome.1.outputPath root = some path ∨ outcome.1.assertionsPath root = some path →
      (t.run (generate root json verbose request)).2.content? (location path.toList) =
        t.content? (location path.toList)

/-- A project with one source and a directory. -/
def sketch : Tree where
  nodes := [(["p".toList], .directory), (["p".toList, "d".toList], .directory),
    (["p".toList, "a.ts".toList], .file "type A = string;\n".toUTF8)]

/-- An entry whose test module is a directory fails behind its output, and nothing keeps an output
from being the input. -/
theorem not_changesProductsOnly :
    ¬ ChangesProductsOnly "/p" false false
      { input := some "a.ts", output := some "out.ts", assertions := some "d" } sketch ∧
    ¬ ChangesProductsOnly "/p" false false
      { input := some "a.ts", output := some "a.ts" } sketch := by
  constructor
  · intro only
    have changed := only.products ["p".toList, "out.ts".toList] (by decide +kernel)
    have failed : ∀ outcome ∈ outcomes "/p"
        { input := some "a.ts", output := some "out.ts", assertions := some "d" } sketch,
        outcome.2.report.status ≠ .generated := by decide +kernel
    obtain ⟨outcome, member, generated, _⟩ := changed
    exact failed outcome member generated
  · intro only
    exact absurd only.inputs (by decide +kernel)

end Schemata.Commands
