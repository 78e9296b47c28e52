import Schemata.Proofs.Files.Tree
import Schemata.Proofs.Path.Directory

/-! Making directories. Only free places on the trail of a path become directories, and what happens
depends on nothing but the trail. -/
namespace Schemata.Files.Tree

open Schemata.Path

variable {t t' u u' v : Tree} {here place q : Place} {places : List Place} {path : List Char}

/-- A tree in which some free places have become directories. -/
def Makes (places : List Place) (t u : Tree) : Prop :=
  ∀ q, u.node? q = t.node? q ∨ q ∈ places ∧ t.node? q = none ∧ u.node? q = some .directory

theorem Makes.refl (places : List Place) (t : Tree) : Makes places t t := fun _ => .inl rfl

theorem Makes.trans (first : Makes places t u) (second : Makes places u v) : Makes places t v := by
  intro q
  rcases second q with same | ⟨member, free, made⟩
  · rw [same]
    exact first q
  · rcases first q with same | ⟨_, _, before⟩
    · exact .inr ⟨member, same ▸ free, made⟩
    · rw [before] at free
      cases free

theorem Makes.mono {more : List Place} (made : Makes places t u) (within : places ⊆ more) :
    Makes more t u := fun q => (made q).imp_right fun ⟨member, rest⟩ => ⟨within member, rest⟩

theorem Makes.content? (made : Makes places t u) (q : Place) : u.content? q = t.content? q := by
  rw [Tree.content?, Tree.content?]
  rcases made q with same | ⟨_, free, directory⟩
  · rw [same]
  · rw [free, directory]

/-- Two trees changed in the same way: what is new in one is so in the other. -/
def Alike (t t' u u' : Tree) : Prop :=
  ∀ q, (t'.node? q ≠ t.node? q → u'.node? q = t'.node? q) ∧
    (u'.node? q ≠ u.node? q → t'.node? q = u'.node? q)

theorem Alike.refl (t u : Tree) : Alike t t u u :=
  fun _ => ⟨fun new => absurd rfl new, fun new => absurd rfl new⟩

theorem Alike.trans {t'' u'' : Tree} (first : Alike t t' u u') (second : Alike t' t'' u' u'') :
    Alike t t'' u u'' := by
  intro q
  obtain ⟨left, right⟩ := first q
  obtain ⟨left', right'⟩ := second q
  grind

theorem Alike.agree (alike : Alike t t' u u') (agree : Agree places t u) : Agree places t' u' := by
  intro q member
  have same := agree q member
  obtain ⟨left, right⟩ := alike q
  grind

theorem alike_put (inside : place ≠ []) (node : Node) :
    Alike t (t.put place node) u (u.put place node) := by
  intro q
  rw [node?_put inside, node?_put inside]
  split
  · exact ⟨fun _ => rfl, fun _ => rfl⟩
  · exact ⟨fun new => absurd rfl new, fun new => absurd rfl new⟩

/-! ## One directory -/

/-- What making a directory comes to that may be there. -/
theorem ensureDirectory_eq (t : Tree) (path : List Char) :
    t.ensureDirectory path = t.locate path >>= fun target =>
      match t.node? target.place with
      | none => .ok (t.put target.place .directory)
      | some .directory => .ok t
      | some (.file _) => .error .alreadyExists := by
  rw [ensureDirectory, makeDirectory, isDirectory, at?]
  cases t.locate path with
  | error failure => rfl
  | ok target =>
    rcases node?_cases t target.place with free | there | ⟨content, file⟩
    · simp only [bind, Except.bind, free]
    · simp only [bind, Except.bind, there]
      rfl
    · cases flag : target.asDirectory <;> simp [bind, Except.bind, file, flag]

theorem ensureDirectory_ok (ensured : t.ensureDirectory path = .ok u) :
    ∃ target, t.locate path = .ok target ∧
      (t.node? target.place = none ∧ u = t.put target.place .directory ∨
        t.node? target.place = some .directory ∧ u = t) := by
  rw [ensureDirectory_eq] at ensured
  cases located : t.locate path with
  | error failure =>
    rw [located] at ensured
    cases ensured
  | ok target =>
    rw [located] at ensured
    simp only [bind, Except.bind] at ensured
    refine ⟨target, rfl, ?_⟩
    split at ensured
    · rename_i free
      exact .inl ⟨free, (Except.ok.inj ensured).symm⟩
    · rename_i there
      exact .inr ⟨there, (Except.ok.inj ensured).symm⟩
    · cases ensured

theorem ne_nil_of_free (free : t.node? place = none) : place ≠ [] := by
  rintro rfl
  cases free

theorem ensureDirectory_makes (ensured : t.ensureDirectory path = .ok u) :
    Makes (trail [] (steps path)) t u := by
  obtain ⟨target, located, ⟨free, rfl⟩ | ⟨_, rfl⟩⟩ := ensureDirectory_ok ensured
  · rw [locate_place located] at free ⊢
    have inside := ne_nil_of_free free
    intro q
    rw [node?_put inside]
    split
    · rename_i same
      exact .inr ⟨same ▸ location_on_trail inside, same ▸ free, rfl⟩
    · exact .inl rfl
  · exact .refl _ _

/-- All on the way to a directory that has been made or found is directories. -/
theorem ensureDirectory_directories (ensured : t.ensureDirectory path = .ok u) :
    ∀ q ∈ trail [] (steps path), u.node? q = some .directory := by
  obtain ⟨target, located, ⟨free, rfl⟩ | ⟨there, rfl⟩⟩ := ensureDirectory_ok ensured
  · intro q passed
    rw [node?_put (ne_nil_of_free free)]
    split
    · rfl
    · rename_i other
      exact (locate_directories located q passed).resolve_left other
  · intro q passed
    rcases locate_directories located q passed with rfl | directory
    · exact there
    · exact directory

theorem ensureDirectory_congr (agree : Agree (trail [] (steps path)) t u) :
    (∃ failure, t.ensureDirectory path = .error failure ∧
      u.ensureDirectory path = .error failure) ∨
      ∃ t' u', t.ensureDirectory path = .ok t' ∧ u.ensureDirectory path = .ok u' ∧
        Alike t t' u u' := by
  rw [ensureDirectory_eq, ensureDirectory_eq, ← locate_congr agree]
  cases located : t.locate path with
  | error failure => exact .inl ⟨failure, rfl, rfl⟩
  | ok target =>
    simp only [bind, Except.bind]
    rw [locate_place located, ← node?_location agree]
    cases form : t.node? (location path) with
    | none => exact .inr ⟨_, _, rfl, rfl, alike_put (ne_nil_of_free form) .directory⟩
    | some node =>
      cases node with
      | directory => exact .inr ⟨t, u, rfl, rfl, .refl t u⟩
      | file content => exact .inl ⟨.alreadyExists, rfl, rfl⟩

/-! ## Directories with those above them -/

theorem holds_of_directory? {above : List Char} (absolute : isAbsolute path = true)
    (found : directory? path = some above) : Holds above path := by
  have moves : steps path ≠ [] := by
    intro rests
    rw [directory?_eq_none absolute rests] at found
    cases found
  obtain ⟨_, form, holds⟩ := directory?_eq_some absolute moves
  rw [found] at form
  exact Option.some.inj form ▸ holds

theorem trail_dropLast (here : Place) (path : List Component) :
    trail here path.dropLast ⊆ trail here path := by
  rcases List.eq_nil_or_concat path with rfl | ⟨front, last, rfl⟩
  · exact List.Subset.refl _
  · rw [List.concat_eq_append, List.dropLast_concat, trail_append]
    exact List.subset_append_left _ _

theorem trail_above {above : List Char} (holds : Holds above path) :
    trail [] (steps above) ⊆ trail [] (steps path) := by
  rw [holds.steps_eq]
  exact trail_dropLast [] (steps path)

/-- What holds of each directory that is made holds of all of them together. -/
theorem makeDirectoriesWithin_induction {R : List Char → Tree → Tree → Prop}
    (none : ∀ path t, R path t t)
    (one : ∀ {path t u}, t.ensureDirectory path = .ok u → R path t u)
    (more : ∀ {path above t u}, directory? path = some above → R above t u → R path t u)
    (trans : ∀ {path t u v}, R path t u → R path u v → R path t v)
    (bound : Nat) (t : Tree) (path : List Char) :
    R path t (t.makeDirectoriesWithin bound path).2 := by
  induction bound generalizing t path with
  | zero => exact none path t
  | succ bound ih =>
    unfold makeDirectoriesWithin
    split
    · rename_i ensured
      exact one ensured
    · split
      · exact none path t
      · rename_i above found
        have front := more found (ih t above)
        split
        · rename_i failed
          rw [failed] at front
          exact front
        · rename_i done
          rw [done] at front
          split
          · rename_i ensured
            exact trans front (one ensured)
          · exact front
    · exact none path t

theorem makeDirectoriesWithin_makes (bound : Nat) (t : Tree) (absolute : isAbsolute path = true) :
    Makes (trail [] (steps path)) t (t.makeDirectoriesWithin bound path).2 := by
  refine makeDirectoriesWithin_induction
    (R := fun path t u => isAbsolute path = true → Makes (trail [] (steps path)) t u)
    (fun path t _ => .refl _ t) (fun ensured _ => ensureDirectory_makes ensured) ?_
    (fun first second absolute => (first absolute).trans (second absolute)) bound t path absolute
  intro path above t u found made absolute
  have holds := holds_of_directory? absolute found
  exact (made holds.absolute).mono (trail_above holds)

/-- Making directories changes no file. -/
theorem makeDirectories_content? (t : Tree) (path : List Char) (q : Place) :
    (t.makeDirectories path).2.content? q = t.content? q := by
  unfold makeDirectories
  split
  · rfl
  · exact makeDirectoriesWithin_induction
      (R := fun _ t u => u.content? q = t.content? q) (fun _ _ => rfl)
      (fun ensured => (ensureDirectory_makes ensured).content? q) (fun _ same => same)
      (fun first second => second.trans first) _ t path

theorem makeDirectoriesWithin_congr (bound : Nat) (absolute : isAbsolute path = true)
    (agree : Agree (trail [] (steps path)) t u) :
    (t.makeDirectoriesWithin bound path).1 = (u.makeDirectoriesWithin bound path).1 ∧
      Alike t (t.makeDirectoriesWithin bound path).2 u (u.makeDirectoriesWithin bound path).2 := by
  induction bound generalizing t u path with
  | zero => exact ⟨rfl, .refl t u⟩
  | succ bound ih =>
    unfold makeDirectoriesWithin
    rcases ensureDirectory_congr agree with ⟨failure, first, second⟩ | ⟨t', u', first, second, alike⟩
    · rw [first, second]
      cases failure with
      | notFound =>
        simp only
        cases found : directory? path with
        | none => exact ⟨rfl, .refl t u⟩
        | some above =>
          have holds := holds_of_directory? absolute found
          have front := ih holds.absolute fun p passed => agree p (trail_above holds passed)
          obtain ⟨same, alike⟩ := front
          have later := alike.agree agree
          simp only
          -- With the directories above, one more directory is left to make.
          generalize t.makeDirectoriesWithin bound above = solo at *
          generalize u.makeDirectoriesWithin bound above = other at *
          obtain ⟨answer, t'⟩ := solo
          obtain ⟨answer', u'⟩ := other
          cases same
          cases answer with
          | error failure => exact ⟨rfl, alike⟩
          | ok done =>
            rcases ensureDirectory_congr later with
              ⟨failure, first, second⟩ | ⟨t'', u'', first, second, last⟩
            · simp only [first, second]
              exact ⟨trivial, alike⟩
            · simp only [first, second]
              exact ⟨trivial, alike.trans last⟩
      | _ => exact ⟨rfl, .refl t u⟩
    · rw [first, second]
      exact ⟨rfl, alike⟩

/-- Where making directories succeeds, all on the way are directories. -/
theorem makeDirectories_directories (made : t.makeDirectories path = (.ok (), u))
    (something : path ≠ []) : ∀ q ∈ trail [] (steps path), u.node? q = some .directory := by
  have last : ∃ v : Tree, v.ensureDirectory path = .ok u := by
    rw [makeDirectories, if_neg something] at made
    unfold makeDirectoriesWithin at made
    split at made
    · rename_i ensured
      cases made
      exact ⟨t, ensured⟩
    · split at made
      · cases made
      · split at made
        · cases made
        · split at made
          · rename_i v _ _ ensured
            cases made
            exact ⟨_, ensured⟩
          · cases made
    · cases made
  obtain ⟨v, ensured⟩ := last
  exact ensureDirectory_directories ensured

/-! ## Writing -/

theorem write_congr {content : ByteArray} (agree : Agree (trail [] (steps path)) t u) :
    (∃ failure, t.write path content = .error failure ∧ u.write path content = .error failure) ∨
      ∃ t' u', t.write path content = .ok t' ∧ u.write path content = .ok u' ∧ Alike t t' u u' := by
  unfold write
  rw [← locate_congr agree]
  cases located : t.locate path with
  | error failure => exact .inl ⟨failure, rfl, rfl⟩
  | ok target =>
    simp only [bind, Except.bind]
    rw [locate_place located, ← node?_location agree]
    have inside (other : t.node? (location path) ≠ some .directory) : location path ≠ [] :=
      fun root => other (root ▸ node?_root t)
    cases form : t.node? (location path) with
    | none =>
      dsimp only
      split
      · exact .inl ⟨_, rfl, rfl⟩
      · exact .inr ⟨_, _, rfl, rfl, alike_put (inside (form ▸ nofun)) _⟩
    | some node =>
      cases node with
      | directory => exact .inl ⟨_, rfl, rfl⟩
      | file old =>
        dsimp only
        split
        · exact .inl ⟨_, rfl, rfl⟩
        · exact .inr ⟨_, _, rfl, rfl, alike_put (inside (form ▸ nofun)) _⟩

end Schemata.Files.Tree
