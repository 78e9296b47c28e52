import Schemata.Proofs.Files.Directories

/-! Making directories where no file stands on the way. Then only the path decides what happens: all
of it becomes directories, or all in front of its first name that is too long. It does not matter
how far it was made before. -/
namespace Schemata.Files.Tree

open Schemata.Path

variable {t u : Tree} {here place q : Place} {path : List Char}

/-! ## Entering directories -/

/-- Enters the directories that a path passes through. -/
def enter (t : Tree) (here : Place) : List Component → Except Failure Place
  | [] => .ok here
  | .name text :: rest =>
    if nameLimit < (String.ofList text).utf8ByteSize then .error .nameTooLong
    else
      match t.node? (here ++ [text]) with
      | none => .error .notFound
      | some (.file _) => .error .notDirectory
      | some .directory => t.enter (here ++ [text]) rest
  | c :: rest => t.enter (c.lead here) rest

theorem follow_enter {piece : List Char} {c : Component} (found : ofPiece? piece = some c)
    (pieces : List (List Char)) : t.follow here (pieces ++ [piece]) =
      (t.enter here (pieces.filterMap ofPiece?) >>= fun place => t.follow place [piece]) := by
  induction pieces generalizing here with
  | nil => rfl
  | cons first rest ih =>
    rw [List.cons_append]
    rcases ofPiece?_cases first with ⟨none, _⟩ | ⟨parent, _⟩ | ⟨named, _⟩
    · rw [follow_skip none, List.filterMap_cons_none none]
      exact ih
    · rw [follow_parent parent, List.filterMap_cons_some parent]
      exact ih
    · rw [follow_name named, List.filterMap_cons_some named, enter]
      split
      · rfl
      · have more : (rest ++ [piece]).all (· == []) = false := by
          have something : (piece == []) = false := by
            refine beq_false_of_ne ?_
            rintro rfl
            cases found
          rw [List.all_append, List.all_cons, something, Bool.false_and, Bool.and_false]
        rw [more]
        simp only [Bool.false_eq_true, if_false]
        cases t.node? (here ++ [first]) with
        | none => rfl
        | some node =>
          cases node with
          | file content => rfl
          | directory => exact ih

/-- Whether a component is not too long to be a name. -/
def fits : Component → Bool
  | .name text => (String.ofList text).utf8ByteSize ≤ nameLimit
  | _ => true

/-- The places of a trail in front of the first name that is too long. -/
def opened (here : Place) : List Component → List Place
  | [] => []
  | .name text :: rest =>
    if fits (.name text) then (here ++ [text]) :: opened (here ++ [text]) rest else []
  | c :: rest => opened (c.lead here) rest

/-- A tree without files on a trail. -/
def Clear (places : List Place) (t : Tree) : Prop :=
  ∀ p ∈ places, t.node? p = none ∨ t.node? p = some .directory

theorem enter_name {text : List Char} (rest : List Component) :
    t.enter here (.name text :: rest) =
      if fits (.name text) then
        match t.node? (here ++ [text]) with
        | none => .error .notFound
        | some (.file _) => .error .notDirectory
        | some .directory => t.enter (here ++ [text]) rest
      else .error .nameTooLong := by
  rw [enter, fits]
  by_cases long : nameLimit < (String.ofList text).utf8ByteSize
  · rw [if_pos long, if_neg (by simpa using long)]
  · rw [if_neg long, if_pos (by simpa using long)]

theorem enter_ok {path : List Component} (entered : t.enter here path = .ok place) :
    place = walk here path ∧ path.all fits = true ∧
      ∀ q ∈ trail here path, t.node? q = some .directory := by
  induction path generalizing here with
  | nil =>
    cases entered
    exact ⟨rfl, rfl, fun _ absent => absurd absent List.not_mem_nil⟩
  | cons c rest ih =>
    cases c with
    | name text =>
      rw [enter_name] at entered
      split at entered
      · rename_i short
        cases form : t.node? (here ++ [text]) with
        | none =>
          rw [form] at entered
          cases entered
        | some node =>
          cases node with
          | file content =>
            rw [form] at entered
            cases entered
          | directory =>
            rw [form] at entered
            obtain ⟨leads, others, directories⟩ := ih entered
            refine ⟨leads, by rw [List.all_cons, short, others]; rfl, fun q passed => ?_⟩
            rcases List.mem_cons.mp passed with rfl | later
            · exact form
            · exact directories q later
      · cases entered
    | root => exact ih entered
    | current => exact ih entered
    | parent => exact ih entered

theorem enter_of_directories {path : List Component} (short : path.all fits = true)
    (directories : ∀ q ∈ trail here path, t.node? q = some .directory) :
    t.enter here path = .ok (walk here path) := by
  induction path generalizing here with
  | nil => rfl
  | cons c rest ih =>
    obtain ⟨first, others⟩ := Bool.and_eq_true_iff.mp (List.all_cons.symm.trans short)
    cases c with
    | name text =>
      rw [enter_name, if_pos first, directories _ List.mem_cons_self]
      exact ih others fun q later => directories q (List.mem_cons_of_mem _ later)
    | root => exact ih others directories
    | current => exact ih others directories
    | parent => exact ih others directories

theorem enter_error {path : List Component} {failure : Failure}
    (clear : Clear (trail here path) t) (failed : t.enter here path = .error failure) :
    failure = .notFound ∨ failure = .nameTooLong ∧ path.all fits = false ∧
      ∀ q ∈ opened here path, t.node? q = some .directory := by
  induction path generalizing here with
  | nil => cases failed
  | cons c rest ih =>
    cases c with
    | name text =>
      rw [enter_name] at failed
      rw [opened]
      split at failed
      · rename_i short
        rcases clear _ List.mem_cons_self with free | directory
        · rw [free] at failed
          cases failed
          exact .inl rfl
        · rw [directory] at failed
          rcases ih (fun q later => clear q (List.mem_cons_of_mem _ later)) failed with
            missing | ⟨long, others, directories⟩
          · exact .inl missing
          · refine .inr ⟨long, by rw [List.all_cons, others, Bool.and_false], fun q passed => ?_⟩
            rw [if_pos short] at passed
            rcases List.mem_cons.mp passed with rfl | later
            · exact directory
            · exact directories q later
      · rename_i long
        cases failed
        rw [if_neg long, List.all_cons, Bool.eq_false_iff.mpr long]
        exact .inr ⟨rfl, rfl, fun _ absent => absurd absent List.not_mem_nil⟩
    | root => exact ih clear failed
    | current => exact ih clear failed
    | parent => exact ih clear failed

theorem opened_append {front : List Component} (short : front.all fits = true)
    (behind : List Component) :
    opened here (front ++ behind) = trail here front ++ opened (walk here front) behind := by
  induction front generalizing here with
  | nil => rfl
  | cons c rest ih =>
    obtain ⟨first, others⟩ := Bool.and_eq_true_iff.mp (List.all_cons.symm.trans short)
    cases c with
    | name text =>
      rw [List.cons_append, opened, if_pos first, ih others]
      rfl
    | root => exact ih others
    | current => exact ih others
    | parent => exact ih others

theorem opened_of_fits {path : List Component} (short : path.all fits = true) :
    opened here path = trail here path := by
  have whole := @opened_append here path short []
  rwa [List.append_nil, opened, List.append_nil] at whole

theorem opened_append_long {front : List Component} (long : front.all fits = false)
    (behind : List Component) : opened here (front ++ behind) = opened here front := by
  induction front generalizing here with
  | nil => cases long
  | cons c rest ih =>
    cases c with
    | name text =>
      rw [List.cons_append, opened, opened]
      split
      · rename_i short
        rw [List.all_cons, short, Bool.true_and] at long
        rw [ih long]
      · rfl
    | root => exact ih long
    | current => exact ih long
    | parent => exact ih long

theorem enter_prefix {path : List Component} (entered : t.enter here path = .ok place)
    (before : ∀ q, q <+: here → t.node? q = some .directory) :
    ∀ q, q <+: place → t.node? q = some .directory := by
  obtain ⟨rfl, _, directories⟩ := enter_ok entered
  intro q isFront
  exact (walk_on_trail isFront).elim (before q) (directories q)

/-! ## Making them -/

/-- A tree in which some places have been made directories. -/
structure Opens (places : List Place) (t u : Tree) : Prop where
  directories : ∀ q ∈ places, u.node? q = some .directory
  others : ∀ q, q ∉ places → u.node? q = t.node? q

theorem Opens.of_directories {places : List Place}
    (there : ∀ q ∈ places, t.node? q = some .directory) : Opens places t t :=
  ⟨there, fun _ _ => rfl⟩

theorem Opens.append {places more : List Place} {v : Tree} (first : Opens places t u)
    (second : Opens more u v) : Opens (places ++ more) t v := by
  constructor
  · intro q member
    by_cases later : q ∈ more
    · exact second.directories q later
    · rw [second.others q later]
      exact first.directories q ((List.mem_append.mp member).resolve_right later)
  · intro q absent
    have before : q ∉ places := fun found => absent (List.mem_append_left _ found)
    have later : q ∉ more := fun found => absent (List.mem_append_right _ found)
    rw [second.others q later, first.others q before]

theorem Opens.alike {places : List Place} {t' u' : Tree} (first : Opens places t t')
    (second : Opens places u u') : Alike t t' u u' := by
  intro q
  by_cases member : q ∈ places
  · rw [first.directories q member, second.directories q member]
    exact ⟨fun _ => rfl, fun _ => rfl⟩
  · exact ⟨fun new => absurd (first.others q member) new,
      fun new => absurd (second.others q member) new⟩

variable {front piece : List Char} {c : Component}

theorem locate_enter (noNul : '\x00' ∉ front ++ '/' :: piece) (plain : '/' ∉ piece)
    (found : ofPiece? piece = some c) : t.locate (front ++ '/' :: piece) =
      (t.enter [] (steps front) >>= fun place => t.follow place [piece]) := by
  have something : front ++ '/' :: piece ≠ [] := by simp
  rw [locate, if_neg noNul, if_neg something, pieces_append, pieces_plain plain, follow_enter found]
  rfl

theorem ensureDirectory_of_error {failure : Failure} (noNul : '\x00' ∉ front ++ '/' :: piece)
    (plain : '/' ∉ piece) (found : ofPiece? piece = some c)
    (failed : t.enter [] (steps front) = .error failure) :
    t.ensureDirectory (front ++ '/' :: piece) = .error failure := by
  rw [ensureDirectory_eq, locate_enter noNul plain found, failed]
  rfl

/-- Behind directories that are there the last component leads on, unless its name is too long. -/
theorem locate_last (noNul : '\x00' ∉ front ++ '/' :: piece) (plain : '/' ∉ piece)
    (found : ofPiece? piece = some c) (entered : t.enter [] (steps front) = .ok place) :
    t.locate (front ++ '/' :: piece) =
      if fits c then .ok ⟨c.lead place, c == .parent⟩ else .error .nameTooLong := by
  rw [locate_enter noNul plain found, entered]
  change t.follow place [piece] = _
  rcases ofPiece?_eq_some found with ⟨rfl, _⟩ | ⟨rfl, _⟩
  · rw [follow_parent found]
    rfl
  · rw [follow_name found]
    by_cases short : (String.ofList piece).utf8ByteSize ≤ nameLimit
    · rw [if_neg (Nat.not_lt.mpr short), if_pos List.all_nil, fits, if_pos (decide_eq_true short)]
      rfl
    · rw [if_pos (Nat.not_le.mp short), fits, if_neg (by simpa using short)]

/-- The last directory of a path, where those in front of it are there. -/
theorem ensureDirectory_last (noNul : '\x00' ∉ front ++ '/' :: piece) (plain : '/' ∉ piece)
    (found : ofPiece? piece = some c) (entered : t.enter [] (steps front) = .ok place)
    (clear : Clear (trail place [c]) t) :
    if fits c then
      ∃ u, t.ensureDirectory (front ++ '/' :: piece) = .ok u ∧ Opens (opened place [c]) t u
    else t.ensureDirectory (front ++ '/' :: piece) = .error .nameTooLong ∧
      opened place [c] = [] := by
  have located := locate_last noNul plain found entered
  rw [ensureDirectory_eq]
  rcases ofPiece?_eq_some found with ⟨rfl, _⟩ | ⟨rfl, _⟩
  · have there : t.node? place.dropLast = some .directory := by
      refine enter_prefix entered ?_ _ (List.dropLast_prefix place)
      intro q root
      rw [List.prefix_nil.mp root, node?_root]
    refine ⟨t, ?_, .of_directories fun _ absent => absurd absent List.not_mem_nil⟩
    rw [located]
    simp only [fits, Component.lead, if_true, bind, Except.bind, there]
  · split
    · rename_i fitting
      rw [located, if_pos fitting]
      have new : opened place [.name piece] = [place ++ [piece]] := by
        rw [opened, if_pos fitting, opened]
      rw [new]
      rcases clear _ List.mem_cons_self with free | there
      · have inside := ne_nil_of_free free
        refine ⟨t.put (place ++ [piece]) .directory, ?_, ?_, ?_⟩
        · simp only [Component.lead, bind, Except.bind, free]
        · intro q member
          rw [node?_put inside, if_pos (List.mem_singleton.mp member)]
        · intro q absent
          rw [node?_put inside, if_neg fun same => absent (List.mem_singleton.mpr same)]
      · refine ⟨t, ?_, .of_directories fun q member => List.mem_singleton.mp member ▸ there⟩
        simp only [Component.lead, bind, Except.bind, there]
    · rename_i long
      rw [located, if_neg long, opened, if_neg long]
      exact ⟨rfl, rfl⟩

theorem steps_front (plain : '/' ∉ piece) (found : ofPiece? piece = some c) :
    steps (front ++ '/' :: piece) = steps front ++ [c] := by
  rw [steps_append, steps_plain plain, found]
  rfl

/-- The last directory of a path, once those in front of it have been made. -/
theorem ensureDirectory_behind (noNul : '\x00' ∉ front ++ '/' :: piece) (plain : '/' ∉ piece)
    (found : ofPiece? piece = some c) (clear : Clear (trail [] (steps front ++ [c])) t)
    (made : Opens (trail [] (steps front)) t u) (short : (steps front).all fits = true) :
    (∃ v, u.ensureDirectory (front ++ '/' :: piece) = .ok v ∧ fits c = true ∧
      Opens (opened [] (steps front ++ [c])) t v) ∨
    u.ensureDirectory (front ++ '/' :: piece) = .error .nameTooLong ∧ fits c = false ∧
      Opens (opened [] (steps front ++ [c])) t u := by
  have entered := enter_of_directories short made.directories
  have clearLast : Clear (trail (walk [] (steps front)) [c]) u := by
    intro p passed
    by_cases before : p ∈ trail [] (steps front)
    · exact .inr (made.directories p before)
    · rw [made.others p before]
      refine clear p ?_
      rw [trail_append]
      exact List.mem_append_right _ passed
  have ensured := ensureDirectory_last noNul plain found entered clearLast
  rw [opened_append short]
  split at ensured
  · rename_i fitting
    obtain ⟨v, last, opens⟩ := ensured
    exact .inl ⟨v, last, fitting, made.append opens⟩
  · rename_i long
    obtain ⟨failed, none⟩ := ensured
    rw [none, List.append_nil]
    exact .inr ⟨failed, Bool.eq_false_iff.mpr long, made⟩

theorem ensureDirectory_root (noNul : '\x00' ∉ path) (absolute : isAbsolute path = true)
    (rests : steps path = []) : t.ensureDirectory path = .ok t := by
  have something : path ≠ [] := by
    rintro rfl
    cases absolute
  have followed (pieces : List (List Char)) (none : pieces.filterMap ofPiece? = []) :
      t.follow [] pieces = .ok ⟨[], true⟩ := by
    induction pieces with
    | nil => rfl
    | cons piece rest ih =>
      have skipped := List.filterMap_eq_nil_iff.mp none piece List.mem_cons_self
      rw [follow_skip skipped]
      exact ih (List.filterMap_cons_none skipped ▸ none)
  have located : t.locate path = .ok ⟨[], true⟩ := by
    rw [locate, if_neg noNul, if_neg something]
    exact followed _ rests
  rw [ensureDirectory_eq, located]
  rfl

/-- Directories made along a way as far as its names are not too long. -/
structure MadeWay (t : Tree) (way : List Component) (result : Except Failure Unit × Tree) :
    Prop where
  answer : result.1 = if way.all fits then .ok () else .error .nameTooLong
  opens : Opens (opened [] way) t result.2

/-- The last directory of a way, when those in front of it have been made within `bound`. -/
theorem MadeWay.concat {above : List Char} {bound : Nat}
    (noNul : '\x00' ∉ front ++ '/' :: piece) (plain : '/' ∉ piece)
    (found : ofPiece? piece = some c) (clear : Clear (trail [] (steps front ++ [c])) t)
    (missing : t.ensureDirectory (front ++ '/' :: piece) = .error .notFound)
    (holding : directory? (front ++ '/' :: piece) = some above)
    (made : MadeWay t (steps front) (t.makeDirectoriesWithin bound above)) :
    MadeWay t (steps front ++ [c])
      (t.makeDirectoriesWithin (bound + 1) (front ++ '/' :: piece)) := by
  rw [makeDirectoriesWithin, missing]
  simp only [holding]
  obtain ⟨answer, opens⟩ := made
  generalize t.makeDirectoriesWithin bound above = result at answer opens ⊢
  obtain ⟨done, u⟩ := result
  dsimp only at answer opens
  by_cases short : (steps front).all fits = true
  · rw [if_pos short] at answer
    rw [opened_of_fits short] at opens
    subst answer
    dsimp only
    rcases ensureDirectory_behind noNul plain found clear opens short with
      ⟨v, ensured, fitting, opens⟩ | ⟨ensured, long, opens⟩
    · rw [ensured]
      exact ⟨by simp [short, fitting], opens⟩
    · rw [ensured]
      exact ⟨by simp [long], opens⟩
  · have long := Bool.eq_false_iff.mpr short
    rw [if_neg short] at answer
    subst answer
    exact ⟨by simp [long], opened_append_long long [c] ▸ opens⟩

/-- The last directory of a way whose other directories are there. -/
theorem MadeWay.of_directories {bound : Nat} (noNul : '\x00' ∉ front ++ '/' :: piece)
    (plain : '/' ∉ piece) (found : ofPiece? piece = some c)
    (clear : Clear (trail [] (steps front ++ [c])) t) (short : (steps front).all fits = true)
    (directories : ∀ q ∈ trail [] (steps front), t.node? q = some .directory) :
    MadeWay t (steps front ++ [c])
      (t.makeDirectoriesWithin (bound + 1) (front ++ '/' :: piece)) := by
  rw [makeDirectoriesWithin]
  rcases ensureDirectory_behind noNul plain found clear (.of_directories directories) short with
    ⟨v, ensured, fitting, opens⟩ | ⟨ensured, long, opens⟩
  · rw [ensured]
    exact ⟨by simp [short, fitting], opens⟩
  · rw [ensured]
    exact ⟨by simp [long], opens⟩

/-- Making directories where no file stands on the way: all that can be opened is a directory then. -/
theorem makeDirectoriesWithin_clear {bound : Nat} (absolute : isAbsolute path = true)
    (noNul : '\x00' ∉ path) (ends : EndsInStep path) (clear : Clear (trail [] (steps path)) t)
    (enough : path.length < bound) :
    MadeWay t (steps path) (t.makeDirectoriesWithin bound path) := by
  induction bound generalizing t path with
  | zero => exact absurd enough (Nat.not_lt_zero _)
  | succ bound ih =>
    rcases ends with rests | ⟨front, piece, c, rfl, plain, found⟩
    · rw [makeDirectoriesWithin, ensureDirectory_root noNul absolute rests, rests]
      exact ⟨rfl, .of_directories fun _ absent => absurd absent List.not_mem_nil⟩
    · have split : steps (front ++ '/' :: piece) = steps front ++ [c] := steps_front plain found
      have clearFront : Clear (trail [] (steps front)) t := by
        intro p passed
        refine clear p ?_
        rw [split, trail_append]
        exact List.mem_append_left _ passed
      rw [split] at clear ⊢
      cases entered : t.enter [] (steps front) with
      | ok place =>
        obtain ⟨rfl, short, directories⟩ := enter_ok entered
        exact .of_directories noNul plain found clear short directories
      | error failure =>
        have failed := ensureDirectory_of_error noNul plain found entered
        -- A directory is missing, or all are there in front of a name that is too long.
        rcases enter_error clearFront entered with rfl | ⟨rfl, long, directories⟩
        · have moves : steps (front ++ '/' :: piece) ≠ [] := by
            rw [split]
            exact List.append_ne_nil_of_right_ne_nil _ (List.cons_ne_nil _ _)
          obtain ⟨above, holding, holds⟩ := directory?_eq_some absolute moves
          have shorter := holds.shorter
          have same := holds.steps_eq
          rw [split, List.dropLast_concat] at same
          refine .concat noNul plain found clear failed holding ?_
          rw [← same] at clearFront ⊢
          exact ih holds.absolute (fun inside => noNul (holds.isPrefix.subset inside))
            holds.endsInStep clearFront (by omega)
        · rw [makeDirectoriesWithin, failed]
          refine ⟨by simp [long], ?_⟩
          rw [opened_append_long long]
          exact .of_directories directories

theorem makeDirectoriesWithin_nul (bound : Nat) (nul : '\x00' ∈ path) :
    t.makeDirectoriesWithin (bound + 1) path = (.error .invalidPath, t) := by
  have lost : t.locate path = .error .invalidPath := if_pos nul
  rw [makeDirectoriesWithin, ensureDirectory_eq, lost]
  rfl

/-- Where no file stands on the way, directories are made alike in all trees. -/
theorem makeDirectoriesWithin_alike (absolute : isAbsolute path = true) (ends : EndsInStep path)
    (first : Clear (trail [] (steps path)) t) (second : Clear (trail [] (steps path)) u) :
    (t.makeDirectoriesWithin (path.length + 1) path).1 =
        (u.makeDirectoriesWithin (path.length + 1) path).1 ∧
      Alike t (t.makeDirectoriesWithin (path.length + 1) path).2
        u (u.makeDirectoriesWithin (path.length + 1) path).2 := by
  by_cases nul : '\x00' ∈ path
  · rw [makeDirectoriesWithin_nul _ nul, makeDirectoriesWithin_nul _ nul]
    exact ⟨rfl, .refl t u⟩
  · have made := makeDirectoriesWithin_clear absolute nul ends first (Nat.lt_succ_self _)
    have made' := makeDirectoriesWithin_clear absolute nul ends second (Nat.lt_succ_self _)
    exact ⟨made.answer.trans made'.answer.symm, made.opens.alike made'.opens⟩

end Schemata.Files.Tree
