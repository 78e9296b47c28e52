import Schemata.Files.Access
import Schemata.Proofs.Path.Location

/-! What operations on a tree of files look at, and what they change. A path is followed past the
places on its trail, and leads to its location. Writing changes what stands there; making a
directory adds one where nothing stood. -/
namespace Schemata.Files.Tree

open Schemata.Path

variable {t u v : Tree} {here place q : Place} {path : List Char}

/-! ## Places -/

theorem node?_root (t : Tree) : t.node? [] = some .directory := rfl

theorem node?_cases (t : Tree) (place : Place) :
    t.node? place = none ∨ t.node? place = some .directory ∨
      ∃ content, t.node? place = some (.file content) := by
  cases t.node? place with
  | none => exact .inl rfl
  | some node =>
    cases node with
    | directory => exact .inr (.inl rfl)
    | file content => exact .inr (.inr ⟨content, rfl⟩)

theorem lookup_filter_ne {nodes : List (Place × Node)} (other : q ≠ place) :
    (nodes.filter fun entry => entry.1 ≠ place).lookup q = nodes.lookup q := by
  induction nodes with
  | nil => rfl
  | cons entry rest ih =>
    by_cases same : entry.1 = place
    · rw [List.filter_cons_of_neg (by simpa using same), ih, List.lookup_cons]
      have apart : (q == entry.1) = false := beq_false_of_ne (same ▸ other)
      rw [apart]
    · rw [List.filter_cons_of_pos (by simpa using same), List.lookup_cons, List.lookup_cons, ih]

theorem node?_put (inside : place ≠ []) (node : Node) :
    (t.put place node).node? q = if q = place then some node else t.node? q := by
  by_cases same : q = place
  · subst same
    rw [if_pos rfl, node?, if_neg inside, put, List.lookup_cons, beq_self_eq_true]
  · rw [if_neg same, node?, node?, put, List.lookup_cons, beq_false_of_ne same,
      lookup_filter_ne same]

/-! ## Trails -/

/-- The places that following a path looks at, in order. -/
def trail (here : Place) : List Component → List Place
  | [] => []
  | .name text :: rest => (here ++ [text]) :: trail (here ++ [text]) rest
  | c :: rest => trail (c.lead here) rest

theorem trail_append (here : Place) (front behind : List Component) :
    trail here (front ++ behind) = trail here front ++ trail (walk here front) behind := by
  induction front generalizing here with
  | nil => rfl
  | cons c rest ih =>
    cases c with
    | name text => exact congrArg (_ :: ·) (ih _)
    | root => exact ih _
    | current => exact ih _
    | parent => exact ih _

/-- Following a path stays on what it has passed. -/
theorem walk_on_trail {steps : List Component} (isFront : q <+: walk here steps) :
    q <+: here ∨ q ∈ trail here steps := by
  induction steps generalizing here with
  | nil => exact .inl isFront
  | cons c rest ih =>
    cases c with
    | root => exact (ih isFront).imp (fun front => front.trans (List.nil_prefix)) id
    | current => exact ih isFront
    | parent => exact (ih isFront).imp (fun front => front.trans (List.dropLast_prefix here)) id
    | name text =>
      rcases ih isFront with front | later
      · rcases List.prefix_concat_iff.mp front with whole | shorter
        · exact .inr (whole ▸ List.mem_cons_self)
        · exact .inl shorter
      · exact .inr (List.mem_cons_of_mem _ later)

theorem location_on_trail (inside : location path ≠ []) : location path ∈ trail [] (steps path) := by
  rw [location_eq_steps] at inside ⊢
  exact (walk_on_trail (List.prefix_refl _)).resolve_left fun front =>
    inside (List.prefix_nil.mp front)

/-! ## Following -/

theorem follow_skip {piece : List Char} (none : ofPiece? piece = none) (rest : List (List Char)) :
    t.follow here (piece :: rest) = t.follow here rest := by
  rw [follow, if_pos (ofPiece?_eq_none none)]

theorem follow_parent {piece : List Char} (found : ofPiece? piece = some .parent)
    (rest : List (List Char)) : t.follow here (piece :: rest) = t.follow here.dropLast rest := by
  rcases ofPiece?_eq_some found with ⟨_, rfl⟩ | ⟨named, _⟩
  · rfl
  · cases named

theorem follow_name {piece : List Char} (found : ofPiece? piece = some (.name piece))
    (rest : List (List Char)) : t.follow here (piece :: rest) =
      if nameLimit < (String.ofList piece).utf8ByteSize then .error .nameTooLong
      else if rest.all (· == []) then .ok ⟨here ++ [piece], !rest.isEmpty⟩
      else
        match t.node? (here ++ [piece]) with
        | none => .error .notFound
        | some (.file _) => .error .notDirectory
        | some .directory => t.follow (here ++ [piece]) rest := by
  rcases ofPiece?_eq_some found with ⟨parent, _⟩ | ⟨_, something, notParent⟩
  · cases parent
  · rw [follow, if_neg something]
    exact if_neg notParent

theorem filterMap_empty {rest : List (List Char)} (empty : rest.all (· == []) = true) :
    rest.filterMap ofPiece? = [] := by
  refine List.filterMap_eq_nil_iff.mpr fun piece member => ?_
  rw [beq_iff_eq.mp (List.all_eq_true.mp empty piece member)]
  rfl

theorem follow_place {pieces : List (List Char)} {target : Target}
    (followed : t.follow here pieces = .ok target) :
    target.place = walk here (pieces.filterMap ofPiece?) := by
  induction pieces generalizing here with
  | nil =>
    cases followed
    rfl
  | cons piece rest ih =>
    rcases ofPiece?_cases piece with ⟨none, _⟩ | ⟨found, _⟩ | ⟨found, _⟩
    · rw [follow_skip none] at followed
      rw [List.filterMap_cons_none none]
      exact ih followed
    · rw [follow_parent found] at followed
      rw [List.filterMap_cons_some found]
      exact ih followed
    · rw [follow_name found] at followed
      rw [List.filterMap_cons_some found, walk_cons]
      split at followed
      · cases followed
      · split at followed
        · rename_i empty
          cases followed
          rw [filterMap_empty empty]
          rfl
        · split at followed
          · cases followed
          · cases followed
          · exact ih followed

theorem locate_place {target : Target} (located : t.locate path = .ok target) :
    target.place = location path := by
  unfold locate at located
  split at located
  · cases located
  · split at located
    · cases located
    · rw [location_eq_steps]
      exact follow_place located

/-- What is passed through on the way to where a path leads is a directory. -/
theorem follow_directories {pieces : List (List Char)} {target : Target}
    (followed : t.follow here pieces = .ok target) :
    ∀ q ∈ trail here (pieces.filterMap ofPiece?),
      q = target.place ∨ t.node? q = some .directory := by
  induction pieces generalizing here with
  | nil => nofun
  | cons piece rest ih =>
    rcases ofPiece?_cases piece with ⟨none, _⟩ | ⟨found, _⟩ | ⟨found, _⟩
    · rw [follow_skip none] at followed
      rw [List.filterMap_cons_none none]
      exact ih followed
    · rw [follow_parent found] at followed
      rw [List.filterMap_cons_some found]
      exact ih followed
    · rw [follow_name found] at followed
      rw [List.filterMap_cons_some found]
      intro q passed
      split at followed
      · cases followed
      · split at followed
        · rename_i empty
          cases followed
          rw [filterMap_empty empty] at passed
          exact .inl (List.mem_singleton.mp passed)
        · split at followed
          · cases followed
          · cases followed
          · rename_i directory
            rcases List.mem_cons.mp passed with rfl | later
            · exact .inr directory
            · exact ih followed q later

theorem locate_directories {target : Target} (located : t.locate path = .ok target) :
    ∀ q ∈ trail [] (steps path), q = target.place ∨ t.node? q = some .directory := by
  unfold locate at located
  split at located
  · cases located
  · split at located
    · cases located
    · exact follow_directories located

/-- Trees with the same nodes at some places. -/
def Agree (places : List Place) (t u : Tree) : Prop := ∀ p ∈ places, t.node? p = u.node? p

theorem follow_congr {pieces : List (List Char)}
    (agree : Agree (trail here (pieces.filterMap ofPiece?)) t u) :
    t.follow here pieces = u.follow here pieces := by
  induction pieces generalizing here with
  | nil => rfl
  | cons piece rest ih =>
    rcases ofPiece?_cases piece with ⟨none, _⟩ | ⟨found, _⟩ | ⟨found, _⟩
    · rw [follow_skip none, follow_skip none]
      rw [List.filterMap_cons_none none] at agree
      exact ih agree
    · rw [follow_parent found, follow_parent found]
      rw [List.filterMap_cons_some found] at agree
      exact ih agree
    · rw [follow_name found, follow_name found]
      rw [List.filterMap_cons_some found] at agree
      rw [agree _ List.mem_cons_self, ih fun p later => agree p (List.mem_cons_of_mem _ later)]

theorem locate_congr (agree : Agree (trail [] (steps path)) t u) : t.locate path = u.locate path := by
  rw [locate, locate, follow_congr agree]

theorem node?_location (agree : Agree (trail [] (steps path)) t u) :
    t.node? (location path) = u.node? (location path) := by
  by_cases root : location path = []
  · rw [root, node?_root, node?_root]
  · exact agree _ (location_on_trail root)

theorem at?_congr (agree : Agree (trail [] (steps path)) t u) : t.at? path = u.at? path := by
  rw [at?, at?, ← locate_congr agree]
  cases located : t.locate path with
  | error failure => rfl
  | ok target =>
    simp only [bind, Except.bind]
    rw [locate_place located, node?_location agree]

theorem readText_congr (agree : Agree (trail [] (steps path)) t u) :
    t.readText path = u.readText path := by
  rw [readText, readText, read, read, at?_congr agree]

/-! ## Writing -/

theorem write_ok {content : ByteArray} (written : t.write path content = .ok u) :
    u = t.put (location path) (.file content) ∧ t.node? (location path) ≠ some .directory := by
  unfold write at written
  cases located : t.locate path with
  | error failure =>
    rw [located] at written
    cases written
  | ok target =>
    rw [located] at written
    simp only [bind, Except.bind] at written
    rw [← locate_place located]
    cases form : t.node? target.place with
    | none =>
      simp only [form] at written
      split at written
      · cases written
      · exact ⟨(Except.ok.inj written).symm, nofun⟩
    | some node =>
      cases node with
      | directory =>
        simp only [form] at written
        cases written
      | file old =>
        simp only [form] at written
        split at written
        · cases written
        · exact ⟨(Except.ok.inj written).symm, nofun⟩

end Schemata.Files.Tree
