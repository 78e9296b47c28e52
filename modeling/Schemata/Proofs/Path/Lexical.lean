import Schemata.Proofs.Path.Relative

/-! What a path keeps without `.` and `..`. Of the steps up that lead above its start only every
other one is kept, since a second `..` drops the first. Going up leads nowhere at the root, so a
path from there keeps its location all the same; another path keeps it if it climbs one level at
most. -/
namespace Schemata.Path

/-- Where a path leads from its start: some levels up, then down through names. -/
structure Route where
  climbs : Nat
  below : List (List Char)

/-- The root begins a new route. -/
def Route.extend (route : Route) : Component → Route
  | .root => ⟨0, []⟩
  | .current => route
  | .parent =>
    if route.below.isEmpty then ⟨route.climbs + 1, []⟩ else ⟨route.climbs, route.below.dropLast⟩
  | .name text => ⟨route.climbs, route.below ++ [text]⟩

def route (path : List Component) : Route := path.foldl Route.extend ⟨0, []⟩

/-- How many levels a path climbs above its start. -/
def climbs (path : List Component) : Nat := (route path).climbs

/-- The location at the end of a route. -/
def Route.goal (route : Route) (start : List (List Char)) : List (List Char) :=
  start.take (start.length - route.climbs) ++ route.below

/-- Without `.`, and without any `..` behind a name. -/
structure IsNormal (path : List Component) : Prop where
  no_current : .current ∉ path
  parents_first : path.Pairwise fun front behind => behind = .parent → ∀ text, front ≠ .name text

/-- Leading to one location with and without `.` and `..`, from wherever it is followed. -/
def KeepsLocation (path : List Char) : Prop :=
  ∀ start, (∀ name ∈ start, IsName name) →
    walk start (lexical (components path)) = walk start (components path)

variable {path stack : List Component} {start : List (List Char)} {way : Route}

/-! ## Routes -/

theorem goal_extend {c : Component} (relative : c ≠ .root) :
    (way.extend c).goal start = c.lead (way.goal start) := by
  cases c with
  | root => contradiction
  | current => rfl
  | name text => exact (List.append_assoc ..).symm
  | parent =>
    obtain ⟨climbs, below⟩ := way
    rcases List.eq_nil_or_concat below with rfl | ⟨front, last, rfl⟩
    · have up : (start.take (start.length - climbs)).dropLast =
          start.take (start.length - (climbs + 1)) := by
        rw [List.dropLast_eq_take, List.length_take, List.take_take]
        congr 1
        omega
      simp only [Route.extend, Route.goal, Component.lead, List.isEmpty_nil, if_true,
        List.append_nil, up]
    · simp [Route.extend, Route.goal, Component.lead, ← List.append_assoc]

theorem goal_foldl (relative : .root ∉ path) (way : Route) :
    (path.foldl Route.extend way).goal start = walk (way.goal start) path := by
  induction path generalizing way with
  | nil => rfl
  | cons c rest ih =>
    obtain ⟨first, later⟩ := List.ne_and_not_mem_of_not_mem_cons relative
    rw [List.foldl_cons, ih later, goal_extend first.symm, walk_cons]

/-- A relative path leads where its route does. -/
theorem walk_eq_goal (relative : .root ∉ path) (start : List (List Char)) :
    walk start path = (route path).goal start := by
  have still : (⟨0, []⟩ : Route).goal start = start := by
    rw [Route.goal, Nat.sub_zero, List.take_length, List.append_nil]
  rw [route, goal_foldl relative, still]

theorem foldl_extend_parents (count climbs : Nat) :
    (List.replicate count Component.parent).foldl Route.extend ⟨climbs, []⟩ =
      ⟨climbs + count, []⟩ := by
  induction count generalizing climbs with
  | zero => rfl
  | succ count ih =>
    rw [List.replicate_succ, List.foldl_cons, Route.extend, List.isEmpty_nil, if_pos rfl, ih,
      Nat.add_assoc, Nat.add_comm 1]

theorem foldl_extend_names (names : List (List Char)) (way : Route) :
    (names.map Component.name).foldl Route.extend way = ⟨way.climbs, way.below ++ names⟩ := by
  induction names generalizing way with
  | nil => exact congrArg (Route.mk _) (List.append_nil _).symm
  | cons name rest ih =>
    rw [List.map_cons, List.foldl_cons, ih, Route.extend, List.append_assoc]
    rfl

/-! ## What the stack shows of a route -/

/-- The names of a route behind one `..` for an odd number of climbs, and the root in front of them
or not. -/
def Shows (path : List Component) (way : Route) : Prop :=
  ∃ front, (front = [] ∨ front = [.root]) ∧
    path = front ++ (List.replicate (way.climbs % 2) .parent ++ way.below.map .name)

theorem Shows.step (shown : Shows stack.reverse way) (c : Component) :
    Shows (step stack c).reverse (way.extend c) := by
  obtain ⟨front, rooted, form⟩ := shown
  cases c with
  | root => exact ⟨[.root], .inr rfl, rfl⟩
  | current => exact ⟨front, rooted, form⟩
  | name text =>
    refine ⟨front, rooted, ?_⟩
    simp only [Path.step, Route.extend, List.reverse_cons, form, List.map_append, List.map_cons,
      List.map_nil, List.append_assoc]
  | parent =>
    obtain ⟨climbs, below⟩ := way
    rcases List.eq_nil_or_concat below with rfl | ⟨names, last, rfl⟩
    -- Above the start a `..` is kept, unless one is kept already: that is dropped instead.
    · refine ⟨front, rooted, ?_⟩
      simp only [Route.extend, List.isEmpty_nil, if_true, List.map_nil, List.append_nil]
        at form ⊢
      rcases Nat.mod_two_eq_zero_or_one climbs with even | odd
      · rw [even, List.replicate_zero, List.append_nil] at form
        rw [show (climbs + 1) % 2 = 1 by omega]
        rcases rooted with rfl | rfl <;> rw [List.reverse_eq_iff.mp form] <;> rfl
      · rw [odd] at form
        rw [show (climbs + 1) % 2 = 0 by omega]
        rcases rooted with rfl | rfl <;> rw [List.reverse_eq_iff.mp form] <;> rfl
    · refine ⟨front, rooted, ?_⟩
      rw [List.concat_eq_append] at form ⊢
      simp only [List.map_append, List.map_cons, List.map_nil, ← List.append_assoc] at form
      rw [List.reverse_eq_iff.mp form, List.reverse_append, List.reverse_singleton]
      simp [Path.step, Route.extend]

theorem Shows.foldl (shown : Shows stack.reverse way) :
    Shows (path.foldl Path.step stack).reverse (path.foldl Route.extend way) := by
  induction path generalizing stack way with
  | nil => exact shown
  | cons c rest ih => exact ih (shown.step c)

theorem lexical_shows (path : List Component) : Shows (lexical path) (route path) := by
  have empty : Shows [].reverse ⟨0, []⟩ := ⟨[], .inl rfl, rfl⟩
  exact empty.foldl

theorem Shows.route_eq (shown : Shows path way) :
    route path = ⟨way.climbs % 2, way.below⟩ := by
  obtain ⟨front, rooted, rfl⟩ := shown
  have start : front.foldl Route.extend ⟨0, []⟩ = ⟨0, []⟩ := by
    rcases rooted with rfl | rfl <;> rfl
  rw [route, List.foldl_append, List.foldl_append, start, foldl_extend_parents,
    foldl_extend_names, Nat.zero_add, List.nil_append]

theorem Shows.parents_first (shown : Shows path way) :
    path.Pairwise fun front behind => behind = .parent → ∀ text, front ≠ .name text := by
  obtain ⟨front, rooted, rfl⟩ := shown
  rw [← List.append_assoc, List.pairwise_append]
  refine ⟨?_, ?_, ?_⟩
  · refine List.Pairwise.imp_of_mem (R := fun _ _ => True) ?_
      (List.pairwise_of_forall fun _ _ => trivial)
    intro c _ member _ _ _ text
    rintro rfl
    rcases List.mem_append.mp member with inFront | up
    · rcases rooted with rfl | rfl <;> simp at inFront
    · cases List.eq_of_mem_replicate up
  · rw [List.pairwise_map]
    exact List.pairwise_of_forall fun _ _ => nofun
  · intro _ _ c member parent
    obtain ⟨name, _, rfl⟩ := List.mem_map.mp member
    cases parent

theorem lexical_isNormal (path : List Component) : IsNormal (lexical path) where
  no_current member := (mem_lexical member).elim nofun fun kept => kept.2 rfl
  parents_first := (lexical_shows path).parents_first

theorem route_lexical (path : List Component) :
    route (lexical path) = ⟨climbs path % 2, (route path).below⟩ := (lexical_shows path).route_eq

/-! ## Locations -/

theorem root_not_mem_components {text : List Char} (relative : isAbsolute text = false) :
    .root ∉ components text := by
  intro member
  simp only [components, relative, Bool.false_eq_true, if_false, List.mem_append,
    List.mem_filterMap] at member
  rcases member with front | ⟨piece, _, found⟩
  · split at front <;> simp at front
  · rcases ofPiece?_eq_some found with ⟨parent, _⟩ | ⟨named, _⟩
    · cases parent
    · cases named

theorem walk_root (start : List (List Char)) (path : List Component) :
    walk start (.root :: path) = walk [] (.root :: path) := rfl

theorem keepsLocation_of_absolute {text : List Char} (absolute : isAbsolute text = true) :
    KeepsLocation text := by
  intro start _
  have spelled := lexical_spells absolute
  obtain ⟨steps, form, _⟩ := spelled.root location_isName
  calc walk start (lexical (components text))
      = walk [] (lexical (components text)) := by rw [form, walk_root]
    _ = location text := spelled.walk_eq
    _ = walk start (components text) := by
        rw [location, components_absolute absolute, walk_root start]

theorem keepsLocation_iff_of_relative {text : List Char} (relative : isAbsolute text = false) :
    KeepsLocation text ↔ climbs (components text) ≤ 1 := by
  have unrooted := root_not_mem_components relative
  have unrooted' : .root ∉ lexical (components text) := by
    intro member
    rcases mem_lexical member with parent | ⟨inside, _⟩
    · cases parent
    · exact unrooted inside
  have goals (start : List (List Char)) :
      walk start (lexical (components text)) = walk start (components text) ↔
        start.take (start.length - climbs (components text) % 2) =
          start.take (start.length - climbs (components text)) := by
    rw [walk_eq_goal unrooted', walk_eq_goal unrooted, route_lexical]
    exact List.append_left_inj _
  constructor
  · intro keeps
    -- A start just as deep as the path climbs shows each level that is not climbed any more.
    have deep := (goals (List.replicate (climbs (components text)) ['a'])).mp
      (keeps _ fun name member => by
        rw [List.eq_of_mem_replicate member]
        exact ⟨by decide, by decide, by decide, by decide⟩)
    have lengths := congrArg List.length deep
    simp only [List.length_take, List.length_replicate] at lengths
    omega
  · intro low start _
    rw [goals, Nat.mod_eq_of_lt (Nat.lt_succ_of_le low)]

/-- The path that is left is without `.`, and without `..` behind names; of the levels that a path
climbs above its start one is left if their number is odd. The location stays unless a relative path
climbs more than one level. -/
theorem lexical_keeps_location_iff (text : List Char) :
    IsNormal (lexical (components text)) ∧
      climbs (lexical (components text)) = climbs (components text) % 2 ∧
      (KeepsLocation text ↔ isAbsolute text = true ∨ climbs (components text) ≤ 1) := by
  refine ⟨lexical_isNormal _, congrArg Route.climbs (route_lexical _), ?_⟩
  cases absolute : isAbsolute text with
  | true => exact iff_of_true (keepsLocation_of_absolute absolute) (.inl rfl)
  | false => rw [keepsLocation_iff_of_relative absolute, or_iff_right Bool.false_ne_true]

/-- Two steps up, one in front of the other, are dropped together. -/
theorem not_keepsLocation_two_up : ¬ ∀ text, KeepsLocation text := by
  intro all
  have same := all "../../x".toList (location "/a/b".toList) location_isName
  revert same
  decide

end Schemata.Path
