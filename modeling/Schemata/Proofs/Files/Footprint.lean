import Schemata.Proofs.Files.Clearance
import Schemata.Proofs.Files.Plan

/-! Commands that keep to their own files. Such a command reads its inputs and writes into its
products, for which it makes directories. What others do at the same time is nothing to it, as long
as they leave alone what it looks at; only a directory that it may make itself, others may make. -/
namespace Schemata.Files

open Schemata.Path Schemata.Files.Tree

/-- The places on the way to a file, with the file. -/
def passed (path : String) : List Place := trail [] (steps path.toList)

/-- The places of the directories on the way to a file. -/
def way (path : String) : List Place := trail [] (steps path.toList).dropLast

theorem way_subset (path : String) : way path ⊆ passed path := trail_dropLast [] _

theorem passed_cases {path : String} {q : Place} (member : q ∈ passed path) :
    q ∈ way path ∨ q = location path.toList := by
  unfold passed at member
  unfold way
  rw [location_eq_steps]
  rcases List.eq_nil_or_concat (steps path.toList) with none | ⟨front, last, form⟩
  · rw [none] at member
    cases member
  · rw [form, List.concat_eq_append, trail_append] at member
    rw [form, List.concat_eq_append, List.dropLast_concat, walk_append]
    refine (List.mem_append.mp member).imp_right fun later => ?_
    cases last with
    | name text => exact List.mem_singleton.mp later
    | root => cases later
    | current => cases later
    | parent => cases later

/-- The files that a command is about, by their paths. -/
structure Footprint where
  inputs : List String
  products : List String

namespace Footprint

variable {f g : Footprint} {t s u : Tree} {q : Place} {path : String}

def places (f : Footprint) : List Place := f.products.map fun path => location path.toList

def ways (f : Footprint) : List Place := f.products.flatMap way

/-- All places that a command looks at. -/
def looks (f : Footprint) : List Place := (f.inputs ++ f.products).flatMap passed

theorem looks_input (input : path ∈ f.inputs) (member : q ∈ passed path) : q ∈ f.looks :=
  List.mem_flatMap.mpr ⟨path, List.mem_append_left _ input, member⟩

theorem looks_product (product : path ∈ f.products) (member : q ∈ passed path) : q ∈ f.looks :=
  List.mem_flatMap.mpr ⟨path, List.mem_append_right _ product, member⟩

theorem ways_subset : f.ways ⊆ f.looks := by
  intro q member
  obtain ⟨path, product, on⟩ := List.mem_flatMap.mp member
  exact looks_product product (way_subset path on)

/-- No file is on the way to a file, and no product is to be. -/
def Open (t : Tree) (f : Footprint) (path : String) : Prop :=
  ∀ r ∈ way path, t.content? r = none ∧ r ∉ f.places

/-- A footprint that leaves another one alone, on a tree that neither has changed yet. -/
structure LeavesAlone (t : Tree) (f g : Footprint) : Prop where
  /-- No product is on the way to a file of the other. -/
  products : ∀ q ∈ f.places, q ∉ g.looks
  /-- No missing directory is on the way to an input of the other. -/
  inputs : ∀ q ∈ f.ways, t.node? q = none → ∀ path ∈ g.inputs, q ∉ passed path
  /-- A missing directory may be on the way to a product of the other, if no file is. -/
  shared : ∀ q ∈ f.ways, t.node? q = none → ∀ path ∈ g.products, q ∈ way path → Open t g path

instance (t : Tree) (q : Place) : Decidable (t.node? q = none) :=
  decidable_of_iff ((t.node? q).isNone = true) Option.isNone_iff_eq_none

instance (t : Tree) (f : Footprint) (path : String) : Decidable (Open t f path) :=
  inferInstanceAs (Decidable (∀ r ∈ way path, t.content? r = none ∧ r ∉ f.places))

instance (t : Tree) (f g : Footprint) : Decidable (LeavesAlone t f g) :=
  decidable_of_iff ((∀ q ∈ f.places, q ∉ g.looks) ∧
      (∀ q ∈ f.ways, t.node? q = none → ∀ path ∈ g.inputs, q ∉ passed path) ∧
      ∀ q ∈ f.ways, t.node? q = none → ∀ path ∈ g.products, q ∈ way path → Open t g path)
    ⟨fun ⟨products, inputs, shared⟩ => ⟨products, inputs, shared⟩,
      fun ⟨products, inputs, shared⟩ => ⟨products, inputs, shared⟩⟩

/-- What a command may have changed: its products, and missing directories on the way to them. -/
def Bounded (f : Footprint) (t s : Tree) : Prop :=
  ∀ q, s.node? q = t.node? q ∨ q ∈ f.places ∨
    q ∈ f.ways ∧ t.node? q = none ∧ s.node? q = some .directory

/-- A place that others may change while a command is under way. -/
inductive Elsewhere (t : Tree) (f : Footprint) (u : Tree) (q : Place) : Prop
  | unseen (outside : q ∉ f.looks)
  | made (missing : t.node? q = none) (directory : u.node? q = some .directory)
      (place : q ∉ f.places) (inputs : ∀ path ∈ f.inputs, q ∉ passed path)
      (clear : ∀ path ∈ f.products, q ∈ way path → Open t f path)

theorem LeavesAlone.elsewhere (alone : LeavesAlone t g f) (alone' : LeavesAlone t f g)
    (bounded : g.Bounded t s) (same : s.node? q = u.node? q) (changed : u.node? q ≠ t.node? q) :
    Elsewhere t f u q := by
  rcases bounded q with kept | place | ⟨way, missing, directory⟩
  · exact absurd (same.symm.trans kept) changed
  · exact .unseen (alone.products q place)
  · exact .made missing (same.symm.trans directory)
      (fun own => alone'.products q own (ways_subset way)) (alone.inputs q way missing)
      (alone.shared q way missing)

/-- A tree as a command sees it that would have left `s` behind by itself. -/
def Sees (t : Tree) (f : Footprint) (s u : Tree) : Prop :=
  ∀ q, u.node? q = s.node? q ∨ s.node? q = t.node? q ∧ Elsewhere t f u q

theorem Sees.input (sees : Sees t f s u) (input : path ∈ f.inputs) : Agree (passed path) s u := by
  intro q member
  rcases sees q with same | ⟨_, unseen | ⟨_, _, _, inputs, _⟩⟩
  · exact same.symm
  · exact absurd (looks_input input member) unseen
  · exact absurd member (inputs path input)

theorem Sees.product (sees : Sees t f s u) (product : path ∈ f.products)
    (directories : ∀ q ∈ way path, s.node? q = some .directory) : Agree (passed path) s u := by
  intro q member
  rcases sees q with same | ⟨untouched, unseen | ⟨missing, _, place, _, _⟩⟩
  · exact same.symm
  · exact absurd (looks_product product member) unseen
  · rcases passed_cases member with on | rfl
    · rw [← untouched, directories q on] at missing
      cases missing
    · exact absurd (List.mem_map_of_mem product) place

theorem node?_of_content? (noFile : t.content? q = none) :
    t.node? q = none ∨ t.node? q = some .directory := by
  unfold content? at noFile
  cases form : t.node? q with
  | none => exact .inl rfl
  | some node =>
    cases node with
    | directory => exact .inr rfl
    | file content =>
      rw [form] at noFile
      cases noFile

theorem Sees.onWay (sees : Sees t f s u) (bounded : f.Bounded t s) (product : path ∈ f.products) :
    Agree (way path) s u ∨ Clear (way path) s ∧ Clear (way path) u := by
  by_cases differ : ∃ q ∈ way path, s.node? q ≠ u.node? q
  · obtain ⟨q, on, differs⟩ := differ
    have clear : Open t f path := by
      rcases sees q with same | ⟨_, unseen | ⟨_, _, _, _, clear⟩⟩
      · exact absurd same.symm differs
      · exact absurd (looks_product product (way_subset path on)) unseen
      · exact clear path product on
    have own : Clear (way path) s := by
      intro r member
      obtain ⟨noFile, notPlace⟩ := clear r member
      rcases bounded r with kept | place | ⟨_, _, directory⟩
      · rw [kept]
        exact node?_of_content? noFile
      · exact absurd place notPlace
      · exact .inr directory
    refine .inr ⟨own, fun r member => ?_⟩
    rcases sees r with same | ⟨_, unseen | ⟨_, directory, _, _, _⟩⟩
    · rw [same]
      exact own r member
    · exact absurd (looks_product product (way_subset path member)) unseen
    · exact .inr directory
  · exact .inl fun q on => Classical.byContradiction fun differs => differ ⟨q, on, differs⟩

/-! ## Operations -/

/-- The operations on the files of a command. -/
def Names (f : Footprint) : Operation → Prop
  | .holds path => path ∈ f.inputs
  | .isFile path => path ∈ f.inputs
  | .read path => path ∈ f.inputs
  | .write path _ => path ∈ f.products
  | .makeDirectories above => ∃ path ∈ f.products, above = parent path ∧ above.isEmpty = false

/-- A file is written where the directories on the way to it are there. -/
def Prepared (s : Tree) : Operation → Prop
  | .write path _ => ∀ q ∈ way path, s.node? q = some .directory
  | _ => True

theorem holds_parent {path : String} (absolute : isAbsolute path.toList = true)
    (something : (parent path).isEmpty = false) :
    Holds (parent path).toList path.toList ∧ (parent path).toList ≠ [] := by
  have nonempty : (parent path).toList ≠ [] := by
    intro none
    rw [String.toList_eq_nil_iff.mp none] at something
    cases something
  refine ⟨?_, nonempty⟩
  unfold parent at nonempty ⊢
  rw [String.toList_ofList] at nonempty ⊢
  cases found : directory? path.toList with
  | none =>
    rw [found] at nonempty
    exact absurd rfl nonempty
  | some above => exact holds_of_directory? absolute found

/-- An operation goes as it would go alone. -/
theorem perform_alike {o : Operation} (absolute : ∀ path ∈ f.products, isAbsolute path.toList = true)
    (bounded : f.Bounded t s) (sees : Sees t f s u) (named : f.Names o) (prepared : Prepared s o) :
    (s.run o.perform).1 = (u.run o.perform).1 ∧
      Alike s (s.run o.perform).2 u (u.run o.perform).2 := by
  cases o with
  | holds path =>
    exact ⟨congrArg Except.isOk (at?_congr (sees.input named)), .refl s u⟩
  | isFile path =>
    have same := at?_congr (sees.input named)
    refine ⟨?_, .refl s u⟩
    change s.isFile path.toList = u.isFile path.toList
    rw [isFile, isFile, same]
  | read path => exact ⟨readText_congr (sees.input named), .refl s u⟩
  | write path text =>
    rw [Operation.run_write, Operation.run_write, writeText, writeText]
    rcases write_congr (sees.product named prepared) with
      ⟨failure, first, second⟩ | ⟨s', u', first, second, alike⟩
    · rw [first, second]
      exact ⟨rfl, .refl s u⟩
    · rw [first, second]
      exact ⟨rfl, alike⟩
  | makeDirectories above =>
    obtain ⟨path, product, rfl, something⟩ := named
    obtain ⟨holds, nonempty⟩ := holds_parent (absolute path product) something
    rw [Operation.run_makeDirectories, Operation.run_makeDirectories, makeDirectories,
      makeDirectories, if_neg nonempty, if_neg nonempty]
    have onWay := sees.onWay bounded product
    rw [way, ← holds.steps_eq] at onWay
    rcases onWay with agree | ⟨first, second⟩
    · exact makeDirectoriesWithin_congr _ holds.absolute agree
    · exact makeDirectoriesWithin_alike holds.absolute holds.endsInStep first second

/-- An operation changes no more than the command may. -/
theorem perform_bounded {o : Operation}
    (absolute : ∀ path ∈ f.products, isAbsolute path.toList = true) (named : f.Names o)
    (s : Tree) : f.Bounded s (s.run o.perform).2 := by
  cases o with
  | holds path => exact fun _ => .inl rfl
  | isFile path => exact fun _ => .inl rfl
  | read path => exact fun _ => .inl rfl
  | write path text =>
    rw [Operation.run_write, writeText]
    cases written : s.write path.toList text.toUTF8 with
    | error failure => exact fun _ => .inl rfl
    | ok s' =>
      obtain ⟨rfl, notDirectory⟩ := write_ok written
      have inside : location path.toList ≠ [] := fun root => notDirectory (root ▸ node?_root s)
      intro q
      dsimp only
      rw [node?_put inside]
      split
      · rename_i here
        exact .inr (.inl (here ▸ List.mem_map_of_mem named))
      · exact .inl rfl
  | makeDirectories above =>
    obtain ⟨path, product, rfl, something⟩ := named
    obtain ⟨holds, nonempty⟩ := holds_parent (absolute path product) something
    rw [Operation.run_makeDirectories, makeDirectories, if_neg nonempty]
    have makes := makeDirectoriesWithin_makes ((parent path).toList.length + 1) s holds.absolute
    rw [holds.steps_eq] at makes
    intro q
    rcases makes q with same | ⟨on, free, directory⟩
    · exact .inl same
    · exact .inr (.inr ⟨List.mem_flatMap.mpr ⟨path, product, on⟩, free, directory⟩)

theorem Bounded.refl (f : Footprint) (t : Tree) : f.Bounded t t := fun _ => .inl rfl

theorem Bounded.trans (first : f.Bounded t s) (second : f.Bounded s u) : f.Bounded t u := by
  intro q
  rcases second q with same | place | ⟨on, missing, directory⟩
  · rw [same]
    exact first q
  · exact .inr (.inl place)
  · rcases first q with same | place | ⟨_, _, there⟩
    · exact .inr (.inr ⟨on, same ▸ missing, directory⟩)
    · exact .inr (.inl place)
    · rw [there] at missing
      cases missing

theorem places_look (place : q ∈ f.places) (inside : q ≠ []) : q ∈ f.looks := by
  obtain ⟨path, product, rfl⟩ := List.mem_map.mp place
  exact looks_product product (location_on_trail inside)

end Footprint

end Schemata.Files
