import Schemata.Path.Specifier
import Schemata.Proofs.Path.Location

/-! A specifier leads from its directory to its target. Of the two paths it leaves out what they
have in common; the steps up undo the rest of the first, and the rest of the second follows. -/
namespace Schemata.Path

variable {directory target : List Char}

theorem take_commonLength (as bs : List Component) :
    as.take (commonLength as bs) = bs.take (commonLength as bs) := by
  induction as generalizing bs with
  | nil => cases bs <;> rfl
  | cons a as ih =>
    cases bs with
    | nil => rfl
    | cons b bs =>
      rw [commonLength]
      split
      · rename_i same
        rw [same, List.take_succ_cons, List.take_succ_cons, ih]
      · rfl

theorem commonLength_le (as bs : List Component) : commonLength as bs ≤ as.length := by
  induction as generalizing bs with
  | nil => cases bs <;> exact Nat.le_refl _
  | cons a as ih =>
    cases bs with
    | nil => exact Nat.zero_le _
    | cons b bs =>
      rw [commonLength]
      split
      · exact Nat.succ_le_succ (ih bs)
      · exact Nat.zero_le _

/-! ## Steps as text -/

/-- A component that stands behind a slash. -/
def IsStep : Component → Prop
  | .parent => True
  | .name text => IsName text
  | _ => False

theorem step_text {c : Component} (valid : IsStep c) :
    '/' ∉ c.text ∧ ofPiece? c.text = some c := by
  cases c with
  | root => exact valid.elim
  | current => exact valid.elim
  | parent => exact ⟨by decide, rfl⟩
  | name text => exact ⟨IsName.no_slash valid, ofPiece?_name valid⟩

theorem joinSlashes_cons (part : List Char) {parts : List (List Char)} (more : parts ≠ []) :
    joinSlashes (part :: parts) = part ++ '/' :: joinSlashes parts := by
  cases parts with
  | nil => contradiction
  | cons next rest => rfl

theorem steps_joinSlashes {path : List Component} (valid : ∀ c ∈ path, IsStep c) :
    steps (joinSlashes (path.map Component.text)) = path := by
  induction path with
  | nil => rfl
  | cons c rest ih =>
    obtain ⟨plain, found⟩ := step_text (valid c List.mem_cons_self)
    have later := ih fun d member => valid d (List.mem_cons_of_mem _ member)
    cases rest with
    | nil =>
      rw [List.map_singleton, joinSlashes, steps_plain plain, found]
      rfl
    | cons d others =>
      have more : (d :: others).map Component.text ≠ [] := List.cons_ne_nil _ _
      rw [List.map_cons, joinSlashes_cons _ more, steps_append, steps_plain plain, found, later]
      rfl

theorem markRelative_relative (text : List Char) : isAbsolute (markRelative text) = false := by
  unfold markRelative
  split
  · rename_i dots
    cases text with
    | nil => rfl
    | cons c rest =>
      rw [List.isPrefixOf_cons_cons, Bool.and_eq_true, beq_iff_eq] at dots
      rw [← dots.1]
      rfl
  · rfl

theorem steps_markRelative (text : List Char) : steps (markRelative text) = steps text := by
  unfold markRelative
  split
  · rfl
  · exact steps_append ['.'] text

/-- A text that is marked as relative leads where its steps lead. -/
theorem walk_markRelative (here : List (List Char)) (text : List Char) :
    walk here (components (markRelative text)) = walk here (steps text) := by
  rw [components, markRelative_relative, ← steps_markRelative, steps]
  simp only [Bool.false_eq_true, if_false]
  split <;> rfl

/-! ## Up and down -/

/-- The first components of a path lead to the first names of its location. -/
theorem Spells.walk_take {path : List Component} {place : List (List Char)}
    (spelled : Spells path place) {count : Nat} (within : count ≤ path.length) :
    walk [] (path.take count) = place.take (place.length - (path.length - count)) := by
  have names (taken : Nat) : walk [] ((place.map Component.name).take taken) = place.take taken := by
    rw [← List.map_take, walk_names, List.nil_append]
  rcases spelled with rfl | rfl
  · simp only [List.length_cons, List.length_map] at within ⊢
    cases count with
    | zero =>
      rw [show place.length - (place.length + 1 - 0) = 0 by omega]
      rfl
    | succ taken =>
      rw [List.take_succ_cons, walk_cons, Component.lead, names]
      congr 1
      omega
  · simp only [List.length_cons, List.length_map] at within ⊢
    cases count with
    | zero =>
      rw [show place.length - (place.length + 1 + 1 - 0) = 0 by omega]
      rfl
    | succ taken =>
      cases taken with
      | zero =>
        rw [show place.length - (place.length + 1 + 1 - (0 + 1)) = 0 by omega]
        rfl
      | succ taken =>
        rw [List.take_succ_cons, List.take_succ_cons, walk_cons, walk_cons, Component.lead,
          Component.lead, List.dropLast_nil, names]
        congr 1
        omega

theorem Spells.walk_eq {path : List Component} {place : List (List Char)}
    (spelled : Spells path place) : walk [] path = place := by
  have whole := spelled.walk_take (Nat.le_refl _)
  rwa [List.take_length, Nat.sub_self, Nat.sub_zero, List.take_length] at whole

theorem Spells.root {path : List Component} {place : List (List Char)} (spelled : Spells path place)
    (valid : ∀ name ∈ place, IsName name) :
    ∃ steps, path = .root :: steps ∧ ∀ c ∈ steps, IsStep c := by
  have named : ∀ c ∈ place.map Component.name, IsStep c := by
    intro c member
    obtain ⟨name, inside, rfl⟩ := List.mem_map.mp member
    exact valid name inside
  rcases spelled with rfl | rfl
  · exact ⟨_, rfl, named⟩
  · refine ⟨_, rfl, fun c member => ?_⟩
    rcases List.mem_cons.mp member with rfl | later
    · trivial
    · exact named c later

/-- The steps between two paths lead from the location of the first to that of the second. -/
theorem walk_between {first second : List Component} {source goal : List (List Char)}
    (spelled : Spells first source) (spelled' : Spells second goal) :
    walk source (List.replicate (first.length - commonLength first second) .parent ++
      second.drop (commonLength first second)) = goal := by
  have up := spelled.walk_take (commonLength_le first second)
  calc
    _ = walk (source.take (source.length - (first.length - commonLength first second)))
          (second.drop (commonLength first second)) := by rw [walk_append, walk_parents]
    _ = walk (walk [] (second.take (commonLength first second)))
          (second.drop (commonLength first second)) := by rw [← up, take_commonLength]
    _ = walk [] second := by rw [← walk_append, List.take_append_drop]
    _ = goal := spelled'.walk_eq

/-- A specifier is relative, and followed from its directory it leads to its target. -/
theorem specifier_leads (absolute : isAbsolute directory = true)
    (absolute' : isAbsolute target = true) :
    isAbsolute (specifier directory target) = false ∧
      walk (location directory) (components (specifier directory target)) = location target := by
  refine ⟨markRelative_relative _, ?_⟩
  have source := lexical_spells absolute
  have goal := lexical_spells absolute'
  obtain ⟨steps, first, _⟩ := source.root location_isName
  obtain ⟨steps', second, valid⟩ := goal.root location_isName
  -- Both paths begin at the root, so that only steps are left behind what they have in common.
  have behind : ∀ c ∈ (lexical (components target)).drop (commonLength
      (lexical (components directory)) (lexical (components target))), IsStep c := by
    rw [first, second, commonLength, if_pos rfl, List.drop_succ_cons]
    exact fun c member => valid c (List.mem_of_mem_drop member)
  have text (count : Nat) (down : List Component) :
      List.replicate count ['.', '.'] ++ down.map Component.text =
        (List.replicate count Component.parent ++ down).map Component.text := by
    rw [List.map_append, List.map_replicate]
    rfl
  rw [specifier, walk_markRelative, stepsBetween, text, steps_joinSlashes]
  · exact walk_between source goal
  · intro c member
    rcases List.mem_append.mp member with up | down
    · rw [List.eq_of_mem_replicate up]
      trivial
    · exact behind c down

/-- Two paths that go above the root, of which one keeps a `..`. -/
theorem specifier_leads_above_root :
    specifier "/../a//b/.".toList "/../../a/c.ts".toList = "../../../a/c.ts".toList ∧
      location "/../a//b/.".toList = ["a".toList, "b".toList] ∧
      walk (location "/../a//b/.".toList)
        (components (specifier "/../a//b/.".toList "/../../a/c.ts".toList)) =
          ["a".toList, "c.ts".toList] := by
  have source : isAbsolute "/../a//b/.".toList = true := by decide
  have goal : isAbsolute "/../../a/c.ts".toList = true := by decide
  exact ⟨by decide, by decide, (specifier_leads source goal).2⟩

end Schemata.Path
