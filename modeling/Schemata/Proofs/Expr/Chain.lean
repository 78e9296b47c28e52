import Schemata.Expr.Layout
import Schemata.Proofs.Expr.Parts

/-! Expressions as heads with calls and members chained onto them, and which expressions can be read
back from their text: names have to be names and none with a meaning of its own, and neither a number
nor a function may have something chained onto it. -/
namespace Schemata.Expr

open Text

inductive Link where
  | call (method : String) (args : List Expr)
  | member (property : String)

namespace Link

def onto (e : Expr) : Link → Expr
  | call method args => .call e method args
  | member property => .member e property

def args : Link → List Expr
  | call _ args => args
  | member _ => []

def layout (depth : Nat) : Link → List Char
  | call method args => '.' :: (method.toList ++ '(' :: (layoutList depth args ++ [')']))
  | member property =>
    if isIdentifier property then '.' :: property.toList
    else '[' :: (Quoted.encode property.toList ++ [']'])

end Link

def chain (e : Expr) (links : List Link) : Expr := links.foldl Link.onto e

def isHead : Expr → Bool
  | .call _ _ _ | .member _ _ | .raw _ => false
  | _ => true

/-- Whether calls and members can be chained onto an expression: a number would go on with their
point, and a function with all of them. -/
def isTarget : Expr → Bool
  | .number _ | .arrow _ => false
  | _ => true

def isDigits (cs : List Char) : Bool := !cs.isEmpty && cs.all Char.isDigit

def isInteger : List Char → Bool
  | '-' :: digits => isDigits digits
  | digits => isDigits digits

/-- The names that stand for something else than a validator. -/
def reserved : List String := [namespaceName, "true", "false"]

/-- Whether the outermost form of an expression can be read back. -/
def isLegible : Expr → Bool
  | .zod method _ => isIdentifier method
  | .call target method _ => isIdentifier method && target.isTarget
  | .member target _ => target.isTarget
  | .ident name => isIdentifier name && !reserved.contains name
  | .number text => isInteger text.toList
  | .raw _ => false
  | .object _ | .array _ | .str _ | .bool _ | .arrow _ => true

def Legible (e : Expr) : Prop := ∀ part ∈ e.parts, part.isLegible = true

instance (e : Expr) : Decidable e.Legible :=
  inferInstanceAs (Decidable (∀ part ∈ e.parts, part.isLegible = true))

def Link.Legible : Link → Prop
  | call method args => isIdentifier method = true ∧ ∀ arg ∈ args, arg.Legible
  | member _ => True

variable {e target : Expr} {links : List Link} {method property : String} {args : List Expr}
  {depth : Nat}

theorem legible_iff : e.Legible ↔ e.isLegible = true ∧ ∀ child ∈ e.children, child.Legible := by
  simp only [Legible, parts_eq e, List.forall_mem_cons, List.forall_mem_flatMap]

theorem legible_call : (call target method args).Legible ↔
    isIdentifier method = true ∧ target.isTarget = true ∧ target.Legible ∧
      ∀ arg ∈ args, arg.Legible := by
  rw [legible_iff, isLegible, Bool.and_eq_true, children, List.forall_mem_cons, and_assoc]

theorem legible_member : (member target property).Legible ↔
    target.isTarget = true ∧ target.Legible := by
  rw [legible_iff, isLegible, children, List.forall_mem_singleton]

theorem layout_onto (e : Expr) (link : Link) :
    layout depth (link.onto e) = layout depth e ++ link.layout depth := by
  cases link with
  | call method args => rw [Link.onto, layout, Link.layout]
  | member property => rw [Link.onto, layout, Link.layout]

theorem layout_chain (e : Expr) (links : List Link) :
    layout depth (chain e links) = layout depth e ++ links.flatMap (Link.layout depth) := by
  induction links generalizing e with
  | nil => exact (List.append_nil _).symm
  | cons link rest ih =>
    rw [chain, List.foldl_cons, ← chain, ih, layout_onto, List.flatMap_cons, List.append_assoc]

theorem chain_concat (e : Expr) (links : List Link) (link : Link) :
    chain e (links ++ [link]) = link.onto (chain e links) := by
  rw [chain, List.foldl_append]
  rfl

/-- An expression that can be read back, as a head with what is chained onto it. -/
structure ChainOf (e head : Expr) (links : List Link) : Prop where
  whole : e = chain head links
  isHead : head.isHead = true
  legible : head.Legible
  linked : ∀ link ∈ links, link.Legible
  target : links ≠ [] → head.isTarget = true

theorem ChainOf.head (legible : e.Legible) (isHead : e.isHead = true) : ChainOf e e [] where
  whole := rfl
  isHead := isHead
  legible := legible
  linked _ member := absurd member List.not_mem_nil
  target more := absurd rfl more

theorem ChainOf.onto {head : Expr} {link : Link} (before : ChainOf target head links)
    (allowed : target.isTarget = true) (legible : link.Legible) :
    ChainOf (link.onto target) head (links ++ [link]) where
  whole := by rw [chain_concat, before.whole]
  isHead := before.isHead
  legible := before.legible
  linked := by
    rw [List.forall_mem_append, List.forall_mem_singleton]
    exact ⟨before.linked, legible⟩
  target _ := by
    -- The first link is chained onto the head, and all others onto what is a target by itself.
    by_cases first : links = []
    · have same := before.whole
      rw [first, chain, List.foldl_nil] at same
      exact same ▸ allowed
    · exact before.target first

theorem exists_chainOf (legible : e.Legible) : ∃ head links, ChainOf e head links := by
  induction e with
  | call target method args ih _ =>
    obtain ⟨named, allowed, before, inside⟩ := legible_call.mp legible
    obtain ⟨head, links, chained⟩ := ih before
    have link : (Link.call method args).Legible := ⟨named, inside⟩
    exact ⟨head, _, chained.onto allowed link⟩
  | member target property ih =>
    obtain ⟨allowed, before⟩ := legible_member.mp legible
    obtain ⟨head, links, chained⟩ := ih before
    have link : (Link.member property).Legible := trivial
    exact ⟨head, _, chained.onto allowed link⟩
  | raw text => exact absurd (legible_iff.mp legible).1 Bool.false_ne_true
  | _ => exact ⟨_, [], .head legible rfl⟩

end Schemata.Expr
