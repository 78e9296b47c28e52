import Mathlib.Data.List.Lex
import Mathlib.Data.List.Sort
import Schemata.Proofs.Expr.Children

/-! The identifiers of an expression by the places where they stand. The positions of an expression,
from left to right, are in the order of their numbers, for the target of a call is a child in front
of its arguments. So the mentions are what is read off at all places of a reference in that order,
and the identifiers are the mentions without repetitions. -/
namespace Schemata.Expr

mutual

/-- The positions in an expression from left to right. -/
def positions : Expr → List (List Nat)
  | .zod _ args => [] :: positionsAll 0 args
  | .call target _ args => [] :: (target.positions.map (0 :: ·) ++ positionsAll 1 args)
  | .member target _ => [] :: target.positions.map (0 :: ·)
  | .object fields => [] :: positionsFields 0 fields
  | .array items => [] :: positionsAll 0 items
  | .arrow body => [] :: body.positions.map (0 :: ·)
  | .ident _ | .str _ | .number _ | .bool _ | .raw _ => [[]]

/-- The positions in siblings, the first of which has the number `i`. -/
def positionsAll (i : Nat) : List Expr → List (List Nat)
  | [] => []
  | e :: es => e.positions.map (i :: ·) ++ positionsAll (i + 1) es

def positionsFields (i : Nat) : List (String × Expr) → List (List Nat)
  | [] => []
  | (_, e) :: es => e.positions.map (i :: ·) ++ positionsFields (i + 1) es

end

/-- The positions that lead through a child with its number. -/
def through (numbered : Expr × Nat) : List (List Nat) := numbered.1.positions.map (numbered.2 :: ·)

def isIdent : Expr → Bool
  | .ident _ => true
  | _ => false

/-- The positions at which a reference stands. -/
def places (e : Expr) : List (List Nat) :=
  e.positions.filter fun position => (at? position e).any isIdent

/-- Whether these are the names that an expression refers to at all the places of a reference in it,
one after the other from left to right. -/
def ReadsOff (e : Expr) (names : List String) : Prop :=
  ∃ places : List (List Nat), places.Pairwise (List.Lex (· < ·)) ∧
    (∀ place, place ∈ places ↔ ∃ name, at? place e = some (.ident name)) ∧
    places.map (at? · e) = names.map fun name => some (.ident name)

variable {e : Expr} {names : List String} {position : List Nat}

/-! ## Positions -/

theorem positionsAll_eq (i : Nat) (es : List Expr) :
    positionsAll i es = (es.zipIdx i).flatMap through := by
  induction es generalizing i with
  | nil => rfl
  | cons e rest ih =>
    rw [positionsAll, List.zipIdx_cons, List.flatMap_cons, ih]
    rfl

theorem positionsFields_eq (i : Nat) (fields : List (String × Expr)) :
    positionsFields i fields = ((fields.map (·.2)).zipIdx i).flatMap through := by
  induction fields generalizing i with
  | nil => rfl
  | cons field rest ih =>
    rw [positionsFields, List.map_cons, List.zipIdx_cons, List.flatMap_cons, ih]
    rfl

theorem positions_eq (e : Expr) : e.positions = [] :: e.children.zipIdx.flatMap through := by
  cases e with
  | zod | call | array => rw [positions, positionsAll_eq]; rfl
  | object => rw [positions, positionsFields_eq]; rfl
  | member target | arrow target =>
    exact congrArg (List.cons []) (List.append_nil (through (target, 0))).symm
  | ident | str | number | bool | raw => rfl

/-- Every part stands at a position, and what stands there are the parts from left to right. -/
theorem map_at?_positions (e : Expr) : e.positions.map (at? · e) = e.parts.map some := by
  induction e using children_induction with
  | node e ih =>
    have each : ∀ numbered ∈ e.children.zipIdx,
        (through numbered).map (at? · e) = numbered.1.parts.map some := by
      rintro ⟨child, i⟩ numbered
      have found : e.children[i]? = some child := List.mem_zipIdx_iff_getElem?.mp numbered
      rw [through, List.map_map, ← ih child (List.mem_of_getElem? found)]
      refine List.map_congr_left fun rest _ => ?_
      rw [Function.comp_apply, at?, found, Option.bind_some]
    have numberless : e.children.zipIdx.flatMap (fun numbered => numbered.1.parts) =
        e.children.flatMap parts := by
      rw [← List.flatMap_map, List.zipIdx_map_fst]
    rw [positions_eq, parts_eq, List.map_cons, List.map_cons, List.map_flatMap,
      List.flatMap_congr each, ← List.map_flatMap, numberless]
    rfl

theorem mem_positions_iff : position ∈ e.positions ↔ ∃ part, at? position e = some part := by
  induction e using children_induction generalizing position with
  | node e ih =>
    rw [positions_eq, List.mem_cons, List.mem_flatMap]
    constructor
    · rintro (rfl | ⟨⟨child, i⟩, numbered, inside⟩)
      · exact ⟨e, rfl⟩
      · have found : e.children[i]? = some child := List.mem_zipIdx_iff_getElem?.mp numbered
        obtain ⟨rest, deeper, rfl⟩ := List.mem_map.mp inside
        obtain ⟨part, there⟩ := (ih child (List.mem_of_getElem? found)).mp deeper
        exact ⟨part, at?_cons_eq_some.mpr ⟨child, found, there⟩⟩
    · rintro ⟨part, there⟩
      cases position with
      | nil => exact .inl rfl
      | cons i rest =>
        obtain ⟨child, found, deeper⟩ := at?_cons_eq_some.mp there
        have inside := (ih child (List.mem_of_getElem? found)).mpr ⟨part, deeper⟩
        exact .inr ⟨(child, i), List.mem_zipIdx_iff_getElem?.mpr found,
          List.mem_map_of_mem inside⟩

theorem pairwise_zipIdx (es : List Expr) (i : Nat) :
    (es.zipIdx i).Pairwise fun earlier later => earlier.2 < later.2 := by
  induction es generalizing i with
  | nil => exact .nil
  | cons e rest ih => exact .cons (fun _ later => List.le_snd_of_mem_zipIdx later) (ih (i + 1))

theorem positions_ascend (e : Expr) : e.positions.Pairwise (List.Lex (· < ·)) := by
  induction e using children_induction with
  | node e ih =>
    rw [positions_eq, List.pairwise_cons, List.pairwise_flatMap]
    refine ⟨fun position inside => ?_, fun numbered member => ?_, ?_⟩
    · obtain ⟨numbered, -, later⟩ := List.mem_flatMap.mp inside
      obtain ⟨rest, -, rfl⟩ := List.mem_map.mp later
      exact .nil
    · have found := List.mem_of_getElem? (List.mem_zipIdx_iff_getElem?.mp member)
      exact (ih numbered.1 found).map _ fun _ _ earlier => .cons earlier
    · refine (pairwise_zipIdx e.children 0).imp fun earlier position inside later deeper => ?_
      obtain ⟨rest, -, rfl⟩ := List.mem_map.mp inside
      obtain ⟨other, -, rfl⟩ := List.mem_map.mp deeper
      exact .rel earlier

/-! ## Mentions -/

theorem filter_parts (e : Expr) : e.parts.filter isIdent = e.mentions.map ident := by
  rw [mentions_eq_parts, List.map_flatMap]
  induction e.parts with
  | nil => rfl
  | cons part rest ih =>
    rw [List.filter_cons, List.flatMap_cons, ← ih]
    cases part with
    | _ => rfl

theorem mem_places_iff : position ∈ e.places ↔ ∃ name, at? position e = some (.ident name) := by
  rw [places, List.mem_filter, mem_positions_iff]
  constructor
  · rintro ⟨⟨part, there⟩, refers⟩
    rw [there] at refers
    cases part with
    | ident name => exact ⟨name, there⟩
    | _ => contradiction
  · rintro ⟨name, there⟩
    exact ⟨⟨.ident name, there⟩, by rw [there]; rfl⟩

theorem map_at?_places (e : Expr) :
    e.places.map (at? · e) = e.mentions.map fun name => some (.ident name) := by
  calc e.places.map (at? · e)
      = (e.positions.map (at? · e)).filter (·.any isIdent) := by rw [List.filter_map]; rfl
    _ = (e.parts.filter isIdent).map some := by rw [map_at?_positions, List.filter_map]; rfl
    _ = e.mentions.map fun name => some (.ident name) := by rw [filter_parts, List.map_map]; rfl

/-- There is but one ascending list of the places, so but one sequence of names to read off. -/
theorem readsOff_iff : e.ReadsOff names ↔ names = e.mentions := by
  have ascend : e.places.Pairwise (List.Lex (· < ·)) := (positions_ascend e).filter _
  constructor
  · rintro ⟨others, othersAscend, complete, read⟩
    have same : others = e.places := othersAscend.eq_of_mem_iff ascend fun place =>
      (complete place).trans mem_places_iff.symm
    rw [same, map_at?_places] at read
    have told : Function.Injective fun name => some (ident name) := fun _ _ alike =>
      ident.inj (Option.some.inj alike)
    exact (List.map_injective_iff.mpr told read).symm
  · rintro rfl
    exact ⟨e.places, ascend, fun _ => mem_places_iff, map_at?_places e⟩

/-! ## Identifiers -/

/-- Noting a name goes on with what is noted without repetitions. -/
theorem note_eraseDups (names : List String) (name : String) :
    note names.eraseDups name = (names ++ [name]).eraseDups := by
  rw [note, List.eraseDups_append, List.cons_removeAll]
  by_cases seen : name ∈ names
  · rw [if_pos (List.mem_eraseDups.mpr seen), List.contains_iff_mem.mpr seen]
    exact (List.append_nil _).symm
  · have unseen : names.contains name = false :=
      Bool.eq_false_iff.mpr (mt List.contains_iff_mem.mp seen)
    rw [if_neg (mt List.mem_eraseDups.mp seen), if_pos unseen]
    rfl

theorem foldl_note_eraseDups (seen names : List String) :
    names.foldl note seen.eraseDups = (seen ++ names).eraseDups := by
  induction names generalizing seen with
  | nil => rw [List.append_nil]; rfl
  | cons name rest ih => rw [List.foldl_cons, note_eraseDups, ih, List.append_assoc]; rfl

theorem identifiers_eq (e : Expr) : e.identifiers = e.mentions.eraseDups :=
  (collect_eq [] e).trans (foldl_note_eraseDups [] e.mentions)

end Schemata.Expr
