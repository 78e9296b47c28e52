import Schemata.Proofs.Expr.Marks

/-! Expressions by their children. A rewriting of expressions that changes some nodes and else goes
on to the children is a map over the children at all other nodes, whatever their constructor is. The
positions of an expression lead from child to child to each of its parts. -/
namespace Schemata.Expr

def mapChildren (f : Expr → Expr) : Expr → Expr
  | .zod method args => .zod method (args.map f)
  | .call target method args => .call (f target) method (args.map f)
  | .member target property => .member (f target) property
  | .object fields => .object (fields.map fun field => (field.1, f field.2))
  | .array items => .array (items.map f)
  | .arrow body => .arrow (f body)
  | .ident name => .ident name
  | .str value => .str value
  | .number text => .number text
  | .bool value => .bool value
  | .raw text => .raw text

/-- The subexpression at a position, which names a child of a child and so on. -/
def at? : List Nat → Expr → Option Expr
  | [], e => some e
  | i :: rest, e => e.children[i]?.bind (at? rest)

variable {f g : Expr → Expr} {e part child : Expr} {name : String}

theorem mapChildren_congr (same : ∀ child ∈ e.children, f child = g child) :
    e.mapChildren f = e.mapChildren g := by
  cases e with
  | object fields =>
    refine congrArg object (List.map_congr_left fun field member => ?_)
    rw [same field.2 (List.mem_map_of_mem member)]
  | _ => simp_all [mapChildren, children]

theorem mapChildren_eq_self (same : ∀ child ∈ e.children, f child = child) :
    e.mapChildren f = e := by
  refine (mapChildren_congr (g := id) same).trans ?_
  cases e with
  | _ => simp [mapChildren]

theorem mapChildren_mapChildren : (e.mapChildren f).mapChildren g = e.mapChildren (g ∘ f) := by
  cases e with
  | _ => simp [mapChildren]

theorem parts_child (below : child ∈ e.children) : child.parts ⊆ e.parts := by
  intro part inside
  rw [parts_eq]
  exact List.mem_cons_of_mem _ (List.mem_flatMap_of_mem below inside)

theorem at?_cons_eq_some {i : Nat} {rest : List Nat} : at? (i :: rest) e = some part ↔
    ∃ child, e.children[i]? = some child ∧ at? rest child = some part := Option.bind_eq_some_iff

/-- The parts of an expression are what stands at its positions. -/
theorem mem_parts_iff : part ∈ e.parts ↔ ∃ position, at? position e = some part := by
  induction e using children_induction with
  | node e ih =>
    rw [parts_eq, List.mem_cons, List.mem_flatMap]
    constructor
    · rintro (rfl | ⟨child, below, deeper⟩)
      · exact ⟨[], rfl⟩
      · obtain ⟨i, found⟩ := List.mem_iff_getElem?.mp below
        obtain ⟨rest, there⟩ := (ih child below).mp deeper
        exact ⟨i :: rest, at?_cons_eq_some.mpr ⟨child, found, there⟩⟩
    · rintro ⟨position, found⟩
      cases position with
      | nil => exact .inl (Option.some.inj found).symm
      | cons i rest =>
        obtain ⟨child, isChild, there⟩ := at?_cons_eq_some.mp found
        have below := List.mem_of_getElem? isChild
        exact .inr ⟨child, below, (ih child below).mpr ⟨rest, there⟩⟩

theorem mem_mentions_iff : name ∈ e.mentions ↔ ∃ position, at? position e = some (.ident name) := by
  rw [mentions_eq_parts, List.mem_flatMap, ← mem_parts_iff]
  constructor
  · rintro ⟨part, inside, named⟩
    cases part with
    | ident other => exact List.mem_singleton.mp named ▸ inside
    | _ => contradiction
  · intro inside
    exact ⟨.ident name, inside, List.mem_singleton_self name⟩

end Schemata.Expr
