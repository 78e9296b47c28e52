import Schemata.Path.Lexical

/-! Where paths lead by their names alone. A location is the names on the way from the root, which
holds itself. An absolute path and the path without `.` and `..` that is made of it lead to one
location, the second with the names of the location behind the root and at most one `..` before
them. -/
namespace Schemata.Path

/-- Where a component leads from a location. -/
def Component.lead (here : List (List Char)) : Component → List (List Char)
  | root => []
  | current => here
  | parent => here.dropLast
  | name text => here ++ [text]

def walk (here : List (List Char)) (path : List Component) : List (List Char) :=
  path.foldl Component.lead here

/-- The location of a path, seen from the root. -/
def location (path : List Char) : List (List Char) := walk [] (components path)

variable {here : List (List Char)} {path : List Char}

theorem walk_cons (here : List (List Char)) (c : Component) (path : List Component) :
    walk here (c :: path) = walk (c.lead here) path := rfl

theorem walk_append (here : List (List Char)) (front behind : List Component) :
    walk here (front ++ behind) = walk (walk here front) behind := List.foldl_append

theorem walk_names (here names : List (List Char)) :
    walk here (names.map .name) = here ++ names := by
  induction names generalizing here with
  | nil => exact (List.append_nil here).symm
  | cons name rest ih =>
    rw [List.map_cons, walk_cons, ih, Component.lead, List.append_assoc]
    rfl

/-- Going up as many steps as there are names leads back; more steps stay at the root. -/
theorem walk_parents (count : Nat) (here : List (List Char)) :
    walk here (List.replicate count .parent) = here.take (here.length - count) := by
  induction count generalizing here with
  | zero => exact List.take_length.symm
  | succ count ih =>
    rw [List.replicate_succ, walk_cons, ih, Component.lead, List.length_dropLast,
      List.dropLast_eq_take, List.take_take]
    congr 1
    omega

/-! ## Names -/

/-- A piece of a path that is a name. -/
structure IsName (piece : List Char) : Prop where
  nonempty : piece ≠ []
  not_current : piece ≠ ['.']
  not_parent : piece ≠ ['.', '.']
  no_slash : '/' ∉ piece

theorem pieces_ne_nil (path : List Char) : pieces path ≠ [] := by
  cases path with
  | nil => exact List.cons_ne_nil _ _
  | cons c rest =>
    rw [pieces]
    split
    · exact List.cons_ne_nil _ _
    · split <;> exact List.cons_ne_nil _ _

theorem pieces_slash (rest : List Char) : pieces ('/' :: rest) = [] :: pieces rest := if_pos rfl

theorem pieces_character {c : Char} (inside : c ≠ '/') (rest : List Char) :
    ∃ piece others, pieces rest = piece :: others ∧ pieces (c :: rest) = (c :: piece) :: others := by
  rw [pieces, if_neg inside]
  cases form : pieces rest with
  | nil => exact absurd form (pieces_ne_nil rest)
  | cons piece others => exact ⟨piece, others, rfl, rfl⟩

theorem pieces_no_slash {piece : List Char} (member : piece ∈ pieces path) : '/' ∉ piece := by
  induction path generalizing piece with
  | nil =>
    cases List.mem_singleton.mp member
    exact List.not_mem_nil
  | cons c rest ih =>
    by_cases slash : c = '/'
    · subst slash
      rw [pieces_slash] at member
      rcases List.mem_cons.mp member with rfl | later
      · exact List.not_mem_nil
      · exact ih later
    · obtain ⟨first, others, form, longer⟩ := pieces_character slash rest
      rw [longer] at member
      rcases List.mem_cons.mp member with rfl | later
      · have free : '/' ∉ first := ih (form ▸ List.mem_cons_self)
        exact fun found => (List.mem_cons.mp found).elim (fun same => slash same.symm) free
      · exact ih (form ▸ List.mem_cons_of_mem _ later)

theorem pieces_plain {piece : List Char} (plain : '/' ∉ piece) : pieces piece = [piece] := by
  induction piece with
  | nil => rfl
  | cons c rest ih =>
    have inside : c ≠ '/' := fun same => plain (same ▸ List.mem_cons_self)
    have free : '/' ∉ rest := fun found => plain (List.mem_cons_of_mem c found)
    rw [pieces, if_neg inside, ih free]

theorem pieces_append (front behind : List Char) :
    pieces (front ++ '/' :: behind) = pieces front ++ pieces behind := by
  induction front with
  | nil => exact pieces_slash behind
  | cons c rest ih =>
    by_cases slash : c = '/'
    · rw [slash, List.cons_append, pieces_slash, pieces_slash, ih, List.cons_append]
    · obtain ⟨piece, others, form, longer⟩ := pieces_character slash rest
      rw [List.cons_append, pieces, if_neg slash, ih, form, longer]
      rfl

theorem ofPiece?_name {piece : List Char} (name : IsName piece) :
    ofPiece? piece = some (.name piece) := by
  rw [ofPiece?, if_neg (not_or.mpr ⟨name.nonempty, name.not_current⟩), if_neg name.not_parent]

/-- A piece stands for nothing, for the directory above, or for its own name. -/
theorem ofPiece?_cases (piece : List Char) :
    ofPiece? piece = none ∧ (piece = [] ∨ piece = ['.']) ∨
      ofPiece? piece = some .parent ∧ piece = ['.', '.'] ∨
      ofPiece? piece = some (.name piece) ∧ ¬ (piece = [] ∨ piece = ['.']) ∧
        piece ≠ ['.', '.'] := by
  by_cases nothing : piece = [] ∨ piece = ['.']
  · exact .inl ⟨if_pos nothing, nothing⟩
  · by_cases parent : piece = ['.', '.']
    · exact .inr (.inl ⟨by rw [ofPiece?, if_neg nothing, if_pos parent], parent⟩)
    · exact .inr (.inr ⟨by rw [ofPiece?, if_neg nothing, if_neg parent], nothing, parent⟩)

theorem ofPiece?_eq_none {piece : List Char} (none : ofPiece? piece = none) :
    piece = [] ∨ piece = ['.'] := by
  rcases ofPiece?_cases piece with ⟨_, nothing⟩ | ⟨found, _⟩ | ⟨found, _⟩
  · exact nothing
  · rw [none] at found
    cases found
  · rw [none] at found
    cases found

theorem ofPiece?_eq_some {piece : List Char} {c : Component} (found : ofPiece? piece = some c) :
    c = .parent ∧ piece = ['.', '.'] ∨
      c = .name piece ∧ ¬ (piece = [] ∨ piece = ['.']) ∧ piece ≠ ['.', '.'] := by
  rcases ofPiece?_cases piece with ⟨none, _⟩ | ⟨form, parent⟩ | ⟨form, named⟩
  · rw [none] at found
    cases found
  · exact .inl ⟨Option.some.inj (found.symm.trans form), parent⟩
  · exact .inr ⟨Option.some.inj (found.symm.trans form), named⟩

/-- What a path asks to do behind the root. -/
def steps (path : List Char) : List Component := (pieces path).filterMap ofPiece?

theorem steps_append (front behind : List Char) :
    steps (front ++ '/' :: behind) = steps front ++ steps behind := by
  rw [steps, pieces_append, List.filterMap_append]
  rfl

theorem steps_plain {piece : List Char} (plain : '/' ∉ piece) :
    steps piece = (ofPiece? piece).toList := by
  rw [steps, pieces_plain plain, List.filterMap_cons]
  cases ofPiece? piece <;> rfl

theorem components_absolute (absolute : isAbsolute path = true) :
    components path = .root :: steps path := by
  simp only [components, absolute, if_true, List.singleton_append, steps]

/-- What stands in front of the steps leads nowhere. -/
theorem location_eq_steps (path : List Char) : location path = walk [] (steps path) := by
  rw [location, components]
  split
  · rfl
  · split <;> rfl

theorem components_name {text : List Char} (member : .name text ∈ components path) :
    IsName text := by
  simp only [components, List.mem_append, List.mem_filterMap] at member
  rcases member with front | ⟨piece, split, found⟩
  · split at front
    · simp at front
    · split at front <;> simp at front
  · rcases ofPiece?_eq_some found with ⟨parent, _⟩ | ⟨named, something, notParent⟩
    · cases parent
    · cases named
      obtain ⟨nonempty, notCurrent⟩ := not_or.mp something
      exact ⟨nonempty, notCurrent, notParent, pieces_no_slash split⟩

theorem walk_isName {path : List Component} (names : ∀ text, .name text ∈ path → IsName text)
    (valid : ∀ name ∈ here, IsName name) : ∀ name ∈ walk here path, IsName name := by
  induction path generalizing here with
  | nil => exact valid
  | cons c rest ih =>
    refine ih (fun text member => names text (List.mem_cons_of_mem _ member)) ?_
    intro name member
    cases c with
    | root => contradiction
    | current => exact valid name member
    | parent => exact valid name (List.dropLast_subset here member)
    | name text =>
      rcases List.mem_append.mp member with before | last
      · exact valid name before
      · cases List.mem_singleton.mp last
        exact names name List.mem_cons_self

theorem location_isName : ∀ name ∈ location path, IsName name :=
  walk_isName (fun _ => components_name) fun _ absent => absurd absent List.not_mem_nil

/-! ## Paths without `.` and `..` -/

/-- A path from the root whose names are those of the location. Behind the root it may keep one
`..`, which leads nowhere. -/
def Spells (path : List Component) (location : List (List Char)) : Prop :=
  path = .root :: location.map .name ∨ path = .root :: .parent :: location.map .name

theorem spells_step {stack : List Component} (spelled : Spells stack.reverse here) (c : Component) :
    Spells (step stack c).reverse (c.lead here) := by
  cases c with
  | root => exact .inl rfl
  | current => exact spelled
  | name text =>
    rw [step, List.reverse_cons]
    refine spelled.imp (fun form => ?_) (fun form => ?_) <;>
      rw [form, Component.lead, List.map_append, List.map_singleton] <;> rfl
  | parent =>
    rcases List.eq_nil_or_concat here with rfl | ⟨front, last, rfl⟩
    -- At the root a `..` is kept, unless one is kept already: that is dropped instead.
    · rcases spelled with form | form <;> rw [List.reverse_eq_iff.mp form]
      · exact .inr rfl
      · exact .inl rfl
    · have dropped (below : List Component) (form : stack.reverse = below ++ [.name last]) :
          (step stack .parent).reverse = below := by
        rw [List.reverse_eq_iff.mp form, List.reverse_append]
        exact List.reverse_reverse below
      rw [List.concat_eq_append] at spelled ⊢
      rw [Component.lead, List.dropLast_concat]
      refine spelled.imp (fun form => ?_) (fun form => ?_) <;>
        exact dropped _ (by rw [form, List.map_append]; rfl)

theorem spells_foldl {stack path : List Component} (spelled : Spells stack.reverse here) :
    Spells (path.foldl step stack).reverse (walk here path) := by
  induction path generalizing stack here with
  | nil => exact spelled
  | cons c rest ih => exact ih (spells_step spelled c)

theorem lexical_spells (absolute : isAbsolute path = true) :
    Spells (lexical (components path)) (location path) := by
  rw [location, components_absolute absolute, walk_cons, lexical, List.foldl_cons]
  exact spells_foldl (.inl rfl)

end Schemata.Path
