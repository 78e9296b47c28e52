import Schemata.Proofs.Commands.Products
import Schemata.Proofs.Files.Schedule

/-! Entries that are generated at the same time. Nothing keeps an entry from reading or writing what
another one writes, and then the order decides. Where each entry leaves the files of the others
alone, any order ends with the same reports and the same files. -/
namespace Schemata.Commands

open Files Schemata.Path

variable {root : String} {t u : Tree}

/-! ## Plans of entries -/

theorem perform_enterParent (path : String) :
    (enterParent path : Plan _).perform = enterParent path := by
  unfold enterParent
  split <;> rfl

theorem perform_writeWithin (path text : String) :
    (writeWithin path text : Plan _).perform = writeWithin path text := by
  rw [writeWithin_eq, writeWithin_eq, Plan.perform_bind, perform_enterParent]
  refine congrArg (enterParent path >>= ·) (funext fun made => ?_)
  cases made with
  | error failure => rfl
  | ok =>
    dsimp only
    rw [Plan.perform_bind]
    refine congrArg (Access.write path text >>= ·) (funext fun written => ?_)
    cases written <;> rfl

namespace EntryRun

theorem perform_writeAll (files : List (String × String)) :
    (writeAll files : Plan _).perform = writeAll files := by
  induction files with
  | nil => rfl
  | cons file rest ih =>
    rw [writeAll, writeAll, Plan.perform_bind, perform_writeWithin]
    refine congrArg (writeWithin file.1 file.2 >>= ·) (funext fun written => ?_)
    cases written with
    | error failure => rfl
    | ok => exact ih

theorem perform_ofSource (root : String) (e : Config.Entry) (source : String) :
    (ofSource root e source : Plan _).perform = ofSource root e source := by
  unfold ofSource
  cases generation root e source with
  | error failure => rfl
  | ok g =>
    dsimp only
    cases products root e g with
    | error failure => rfl
    | ok files =>
      dsimp only
      rw [Plan.perform_bind, perform_writeAll]
      refine congrArg (writeAll files >>= ·) (funext fun written => ?_)
      cases written <;> rfl

/-- The plan of an entry, carried out alone, is the run of the entry. -/
theorem perform_ofEntry (root : String) (e : Config.Entry) :
    (ofEntry root e : Plan _).perform = ofEntry root e := by
  rw [ofEntry, ofEntry, Plan.perform_bind]
  refine congrArg (Access.read (e.inputPath root) >>= ·) (funext fun source => ?_)
  cases source with
  | error failure => rfl
  | ok source => exact perform_ofSource root e source

end EntryRun

/-! ## Entries keep to their files -/

namespace EntryRun

variable {f : Footprint} {path : String} {s : Tree}

theorem guards_enterParent (product : path ∈ f.products) (s : Tree) :
    f.Guards (enterParent path) s := by
  unfold enterParent
  split
  · trivial
  · rename_i something
    exact ⟨⟨path, product, rfl, Bool.eq_false_iff.mpr something⟩, trivial, trivial⟩

/-- Where the directory of a file has been made, all on the way to the file are directories. -/
theorem enterParent_way (absolute : isAbsolute path.toList = true)
    (entered : (s.run (enterParent path)).1 = .ok ()) :
    ∀ q ∈ way path, (s.run (enterParent path)).2.node? q = some .directory := by
  unfold enterParent at entered ⊢
  split
  · rename_i nothing
    -- An absolute path without a directory leads nowhere but to the root.
    have rests : steps path.toList = [] := by
      refine Classical.byContradiction fun moves => ?_
      obtain ⟨above, found, holds⟩ := directory?_eq_some absolute moves
      rw [parent, found, Option.getD_some, String.isEmpty_iff, String.ofList_eq_empty_iff] at nothing
      rw [nothing] at holds
      cases holds.absolute
    rw [way, rests]
    exact fun q member => absurd member List.not_mem_nil
  · rename_i something
    rw [if_neg something] at entered
    obtain ⟨holds, nonempty⟩ :=
      Footprint.holds_parent absolute (Bool.eq_false_iff.mpr something)
    rw [Tree.run_makeDirectories] at entered ⊢
    rw [way, ← holds.steps_eq]
    exact Tree.makeDirectories_directories (Prod.ext entered rfl) nonempty

theorem guards_writeWithin (absolute : isAbsolute path.toList = true)
    (product : path ∈ f.products) (text : String) (s : Tree) :
    f.Guards (writeWithin path text) s := by
  rw [writeWithin_eq, Footprint.guards_bind, perform_enterParent]
  refine ⟨guards_enterParent product s, ?_⟩
  have onWay := enterParent_way (s := s) absolute
  cases made : (s.run (enterParent path)).1 with
  | error failure => trivial
  | ok =>
    rw [Footprint.guards_bind]
    refine ⟨⟨product, onWay made, trivial⟩, ?_⟩
    split <;> trivial

theorem guards_writeAll {files : List (String × String)}
    (absolute : ∀ path ∈ f.products, isAbsolute path.toList = true)
    (listed : ∀ file ∈ files, file.1 ∈ f.products) (s : Tree) : f.Guards (writeAll files) s := by
  induction files generalizing s with
  | nil => trivial
  | cons file rest ih =>
    have product := listed file List.mem_cons_self
    rw [writeAll, Footprint.guards_bind]
    refine ⟨guards_writeWithin (absolute _ product) product file.2 s, ?_⟩
    split
    · exact ih (fun other later => listed other (List.mem_cons_of_mem _ later)) _
    · trivial

/-- The files of an entry: it reads its input and writes its output and its test module. -/
def footprint (root : String) (e : Config.Entry) : Footprint where
  inputs := [e.inputPath root]
  products := (e.outputPath root).toList ++ (e.assertionsPath root).toList

theorem absolute_products (absolute : isAbsolute root.toList = true) (e : Config.Entry) :
    ∀ path ∈ (footprint root e).products, isAbsolute path.toList = true := by
  have resolved (file : Option String) :
      ∀ path ∈ (file.map (Config.Entry.resolve root)).toList, isAbsolute path.toList = true := by
    intro path member
    obtain ⟨relative, _, rfl⟩ := Option.map_eq_some_iff.mp (Option.mem_toList.mp member)
    rw [Config.Entry.resolve, String.toList_ofList]
    exact absolute_join absolute _
  intro path member
  exact (List.mem_append.mp member).elim (resolved e.output path) (resolved e.assertions path)

/-- Whatever the files hold, an entry keeps to those of its own. -/
theorem guards_ofEntry (absolute : isAbsolute root.toList = true) (e : Config.Entry) (s : Tree) :
    (footprint root e).Guards (ofEntry root e) s := by
  rw [ofEntry, Footprint.guards_bind]
  refine ⟨⟨List.mem_singleton.mpr rfl, trivial, trivial⟩, ?_⟩
  split
  · trivial
  · unfold ofSource
    split
    · trivial
    · split
      · trivial
      · rename_i files listed
        rw [Footprint.guards_bind]
        refine ⟨guards_writeAll (absolute_products absolute e) (fun file member => ?_) _, ?_⟩
        · refine List.mem_append.mpr ((products_named listed member).imp ?_ ?_)
          · exact Option.mem_toList.mpr
          · exact Option.mem_toList.mpr
        · split <;> trivial

end EntryRun

/-- An entry as a command that keeps to its files. -/
def EntryRun.job (root : String) (e : Config.Entry) : Footprint × Plan EntryRun :=
  (footprint root e, ofEntry root e)

/-! ## Orders -/

/-- Entries are generated in some order, all at the same time as it may be. -/
def Generates (root : String) (entries : List Config.Entry) (t : Tree) (runs : List EntryRun)
    (u : Tree) : Prop :=
  Finishes (entries.map fun e => (EntryRun.ofEntry root e : Plan EntryRun)) t runs u

/-- The order in which they come is one of the orders of entries. -/
theorem generates_mapM (root : String) (entries : List Config.Entry) (t : Tree) :
    Generates root entries t (t.run (entries.mapM (EntryRun.ofEntry root))).1
      (t.run (entries.mapM (EntryRun.ofEntry root))).2 := by
  have steps := steps_mapM (fun e => (EntryRun.ofEntry root e : Plan EntryRun)) [] entries t
  simp only [EntryRun.perform_ofEntry] at steps
  exact steps

/-- Where entries leave the files of each other alone, every order of generating them gives what
`generate` reports, and leaves what `generate` leaves. -/
theorem generates_independent {request : GenerateRequest} {entries : List Config.Entry}
    {runs : List EntryRun} (absolute : isAbsolute root.toList = true)
    (selected : (t.run (request.entries root)).1 = .ok entries)
    (apart : (entries.map (EntryRun.footprint root)).Pairwise fun f g =>
      Footprint.LeavesAlone t f g ∧ Footprint.LeavesAlone t g f)
    (generates : Generates root entries t runs u) (json verbose : Bool) :
    (t.run (generate root json verbose request)).1 =
        generateOutput json verbose request.strict runs ∧
      ∀ place, (t.run (generate root json verbose request)).2.content? place = u.content? place := by
  have first := generates_mapM root entries t
  have plans : entries.map (fun e => (EntryRun.ofEntry root e : Plan EntryRun)) =
      (entries.map (EntryRun.job root)).map (·.2) := by
    rw [List.map_map]
    rfl
  have keep : Apart t ((entries.map (EntryRun.job root)).map (·.1)) := by
    rw [List.map_map]
    refine ⟨apart, fun f member => ?_⟩
    obtain ⟨e, _, rfl⟩ := List.mem_map.mp member
    exact EntryRun.absolute_products absolute e
  have guarded : ∀ job ∈ entries.map (EntryRun.job root), job.1.Guards job.2 t := by
    intro job member
    obtain ⟨e, _, rfl⟩ := List.mem_map.mp member
    exact EntryRun.guards_ofEntry absolute e t
  rw [Generates, plans] at first generates
  obtain ⟨answers, trees⟩ := first.deterministic keep guarded generates
  rw [run_generate, selected]
  dsimp only
  refine ⟨by rw [answers], fun place => ?_⟩
  rw [Tree.content?, Tree.content?, trees place]

/-- Of two entries the second may come first. -/
theorem generates_reversed (root : String) (first second : Config.Entry) (t : Tree) :
    Generates root [first, second] t
      [((t.run (EntryRun.ofEntry root second)).2.run (EntryRun.ofEntry root first)).1,
        (t.run (EntryRun.ofEntry root second)).1]
      ((t.run (EntryRun.ofEntry root second)).2.run (EntryRun.ofEntry root first)).2 := by
  have later := steps_perform [EntryRun.ofEntry root first] (EntryRun.ofEntry root second) [] t
  rw [EntryRun.perform_ofEntry] at later
  have former := steps_perform [] (EntryRun.ofEntry root first)
    [.done (t.run (EntryRun.ofEntry root second)).1] (t.run (EntryRun.ofEntry root second)).2
  rw [EntryRun.perform_ofEntry] at former
  exact later.trans former

/-- A project in the directory `p`, by the names and texts of its files. -/
def project (files : List (String × String)) : Tree where
  nodes := (["p".toList], .directory) :: files.map fun (name, text) =>
    (["p".toList, name.toList], .file text.toUTF8)

def entry (name input output : String) : Config.Entry :=
  { name := some name, input, output := some output }

/-- Two entries that write into one directory, which is not there yet. -/
def neighbours : Tree := project
  [(Config.fileName, "[[\"a\", \"a.ts\", \"gen/a.ts\"], [\"b\", \"b.ts\", \"gen/b.ts\"]]"),
    ("a.ts", "type A = string;\n"), ("b.ts", "type B = string;\n")]

theorem eq_ok_of_toOption {ε α : Type} {result : Except ε α} {a : α}
    (found : result.toOption = some a) : result = .ok a := by
  cases result with
  | error failure => cases found
  | ok b => exact congrArg _ (Option.some.inj found)

theorem generates_independent_neighbours :
    let a := entry "a" "a.ts" "gen/a.ts"
    let b := entry "b" "b.ts" "gen/b.ts"
    let later := neighbours.run (EntryRun.ofEntry "/p" b)
    let former := later.2.run (EntryRun.ofEntry "/p" a)
    (neighbours.run (generate "/p" false false { all := true })).1 =
        generateOutput false false false [former.1, later.1] ∧
      ∀ place, (neighbours.run (generate "/p" false false { all := true })).2.content? place =
        former.2.content? place :=
  generates_independent (by decide) (eq_ok_of_toOption (by decide +kernel)) (by decide +kernel)
    (generates_reversed "/p" _ _ neighbours) false false

/-- The order of entries decides neither what is reported on them nor what the files hold. -/
def OrderIndependent (root : String) (entries : List Config.Entry) (t : Tree) : Prop :=
  ∀ runs u runs' u', Generates root entries t runs u → Generates root entries t runs' u' →
    runs.map (·.report) = runs'.map (·.report) ∧ ∀ place, u.content? place = u'.content? place

/-- An entry whose input is the output of another one. -/
def chain : Tree := project
  [(Config.fileName, "[[\"a\", \"b.zod.ts\", \"a.zod.ts\"], [\"b\", \"b.ts\", \"b.zod.ts\"]]"),
    ("b.zod.ts", "type A = string;\n"), ("b.ts", "type B = string;\n")]

theorem not_orderIndependent_chain :
    (chain.run (GenerateRequest.entries { all := true } "/p")).1 =
      .ok [entry "a" "b.zod.ts" "a.zod.ts", entry "b" "b.ts" "b.zod.ts"] ∧
    ¬ OrderIndependent "/p" [entry "a" "b.zod.ts" "a.zod.ts", entry "b" "b.ts" "b.zod.ts"]
      chain := by
  refine ⟨eq_ok_of_toOption (by decide +kernel), fun independent => ?_⟩
  have files := (independent _ _ _ _ (generates_mapM "/p" _ chain)
    (generates_reversed "/p" _ _ chain)).2 ["p".toList, "a.zod.ts".toList]
  exact absurd files (by decide +kernel)

end Schemata.Commands
