import Schemata.Proofs.Expr.Children

/-! What erasure does at each position of an expression. It takes out exactly the lookups into
deferred validators, leaves everything else where it stands, and may be done for one set of deferred
validators after the other. -/
namespace Schemata.Expr

/-- A lookup `x.shape.key` with a deferred `x`. -/
def IsLookup (deferred : String → Bool) (e : Expr) : Prop :=
  ∃ name key, deferred name = true ∧ e = .member (.member (.ident name) shapeName) key

/-- No lookup into a deferred validator stands at a position or above it. -/
def Outside (deferred : String → Bool) (e : Expr) (position : List Nat) : Prop :=
  ∀ front part, front <+: position → at? front e = some part → ¬ IsLookup deferred part

variable {deferred later : String → Bool} {e part : Expr} {name : String} {position : List Nat}

theorem isErased_eq_false : isErased deferred e = false ↔ ¬ IsLookup deferred e := by
  rw [IsLookup, ← isErased_iff, Bool.not_eq_true]

/-- At a node that stays, erasure goes on to the children. -/
theorem eraseLookups_of_stays (stays : isErased deferred e = false) :
    e.eraseLookups deferred = e.mapChildren (eraseLookups deferred) := by
  cases e with
  | member target property => exact eraseLookups_member stays
  | _ => simp [eraseLookups, mapChildren, eraseAll_eq, eraseFields_eq]

theorem not_isLookup_eraseLookups (inside : part ∈ (e.eraseLookups deferred).parts) :
    ¬ IsLookup deferred part := by
  rintro ⟨name, key, hidden, rfl⟩
  have listed : (name, key) ∈ (e.eraseLookups deferred).lookups := by
    refine List.mem_flatMap.mpr ⟨_, inside, ?_⟩
    simp [fieldLookup, lookupTarget?]
  rw [lookups_eraseLookups, List.mem_filter, hidden] at listed
  simp at listed

theorem eraseLookups_eq_self (free : ∀ part ∈ e.parts, ¬ IsLookup deferred part) :
    e.eraseLookups deferred = e := by
  induction e using children_induction with
  | node e ih =>
    have here : ¬ IsLookup deferred e := by
      apply free
      rw [parts_eq]
      exact List.mem_cons_self
    rw [eraseLookups_of_stays (isErased_eq_false.mpr here)]
    apply mapChildren_eq_self
    intro child below
    exact ih child below fun part inside => free part (parts_child below inside)

theorem isErased_or (deferred later : String → Bool) (e : Expr) :
    isErased (fun name => deferred name || later name) e =
      (isErased deferred e || isErased later e) := by
  cases e with
  | member target property =>
    rw [isErased, isErased, isErased, isDeferredLookup, isDeferredLookup, isDeferredLookup]
    cases lookupTarget? target with
    | none => rfl
    | some name => simp
  | _ => rfl

theorem isErased_eraseLookups (later : String → Bool) (stays : isErased deferred e = false) :
    isErased later (e.eraseLookups deferred) = isErased later e := by
  cases e with
  | member target property =>
    rw [eraseLookups_member stays, isErased, isErased, isDeferredLookup, isDeferredLookup,
      lookupTarget?_eraseLookups]
  | _ => simp [eraseLookups, isErased]

/-- Erasing for some validators and then for others is erasing for all of them at once. -/
theorem eraseLookups_eraseLookups (deferred later : String → Bool) (e : Expr) :
    (e.eraseLookups deferred).eraseLookups later =
      e.eraseLookups fun name => deferred name || later name := by
  induction e using children_induction with
  | node e ih =>
    have either := isErased_or deferred later e
    cases first : isErased deferred e with
    | true =>
      rw [first, Bool.true_or] at either
      rw [eraseLookups_of_isErased first, eraseLookups_of_isErased either]
      rfl
    | false =>
      have second := isErased_eraseLookups later first
      rw [first, Bool.false_or] at either
      cases last : isErased later e with
      | true =>
        rw [eraseLookups_of_isErased (second.trans last), eraseLookups_of_isErased
          (either.trans last)]
      | false =>
        rw [eraseLookups_of_stays (second.trans last), eraseLookups_of_stays (either.trans last),
          eraseLookups_of_stays first, mapChildren_mapChildren]
        exact mapChildren_congr ih

theorem outside_nil : Outside deferred e [] ↔ ¬ IsLookup deferred e := by
  constructor
  · intro outside
    exact outside [] e (List.prefix_refl _) rfl
  · intro here front part isFront found
    obtain rfl := List.prefix_nil.mp isFront
    exact Option.some.inj found ▸ here

theorem outside_cons {i : Nat} {child : Expr} {rest : List Nat}
    (isChild : e.children[i]? = some child) :
    Outside deferred e (i :: rest) ↔ ¬ IsLookup deferred e ∧ Outside deferred child rest := by
  constructor
  · intro outside
    refine ⟨outside [] e (List.nil_prefix) rfl, fun front part isFront found => ?_⟩
    refine outside (i :: front) part ((List.prefix_cons_inj i).mpr isFront) ?_
    exact at?_cons_eq_some.mpr ⟨child, isChild, found⟩
  · rintro ⟨here, below⟩ front part isFront found
    cases front with
    | nil => exact Option.some.inj found ▸ here
    | cons j front =>
      obtain ⟨rfl, shorter⟩ := List.cons_prefix_cons.mp isFront
      obtain ⟨other, also, there⟩ := at?_cons_eq_some.mp found
      obtain rfl := Option.some.inj (isChild.symm.trans also)
      exact below front part shorter there

theorem eraseLookups_eq_ident : e.eraseLookups deferred = .ident name ↔ e = .ident name := by
  cases e with
  | member target property =>
    rw [eraseLookups]
    split
    · simp [anything, schema]
    · simp
  | _ => simp [eraseLookups]

/-- A reference stands after erasure exactly where it stood outside of the erased lookups. -/
theorem at?_eraseLookups_eq_ident : at? position (e.eraseLookups deferred) = some (.ident name) ↔
    at? position e = some (.ident name) ∧ Outside deferred e position := by
  induction position generalizing e with
  | nil =>
    rw [outside_nil, at?, at?, Option.some_inj, Option.some_inj, eraseLookups_eq_ident]
    constructor
    · rintro rfl
      refine ⟨rfl, ?_⟩
      rintro ⟨other, key, _, same⟩
      contradiction
    · exact And.left
  | cons i rest ih =>
    cases erased : isErased deferred e with
    | true =>
      constructor
      · intro found
        rw [eraseLookups_of_isErased erased] at found
        obtain ⟨child, isChild, _⟩ := at?_cons_eq_some.mp found
        contradiction
      · rintro ⟨_, outside⟩
        exact absurd (isErased_iff.mp erased) (outside [] e List.nil_prefix rfl)
    | false =>
      have here := isErased_eq_false.mp erased
      constructor
      · intro found
        obtain ⟨changed, isChild, there⟩ := at?_cons_eq_some.mp found
        rw [children_eraseLookups erased, List.getElem?_map] at isChild
        obtain ⟨child, also, rfl⟩ := Option.map_eq_some_iff.mp isChild
        obtain ⟨named, below⟩ := ih.mp there
        exact ⟨at?_cons_eq_some.mpr ⟨child, also, named⟩, (outside_cons also).mpr ⟨here, below⟩⟩
      · rintro ⟨found, outside⟩
        obtain ⟨child, isChild, there⟩ := at?_cons_eq_some.mp found
        have below := ((outside_cons isChild).mp outside).2
        refine at?_cons_eq_some.mpr ⟨child.eraseLookups deferred, ?_, ih.mpr ⟨there, below⟩⟩
        rw [children_eraseLookups erased, List.getElem?_map, isChild, Option.map_some]

/-- Erasure takes out exactly the lookups into deferred validators: none is left at any position,
nothing happens where there is none, and the validators mentioned afterwards are those with a
reference outside of the lookups. Done for two sets of deferred validators it is erasure for both,
so neither repetition nor order matters. -/
theorem erasure_exact (e : Expr) (deferred later : String → Bool) :
    (∀ position part, at? position (e.eraseLookups deferred) = some part →
      ¬ IsLookup deferred part) ∧
    (e.eraseLookups deferred = e ↔
      ∀ position part, at? position e = some part → ¬ IsLookup deferred part) ∧
    (∀ name, name ∈ (e.eraseLookups deferred).identifiers ↔
      ∃ position, at? position e = some (.ident name) ∧ Outside deferred e position) ∧
    (e.eraseLookups deferred).eraseLookups later =
      e.eraseLookups (fun name => deferred name || later name) ∧
    (e.eraseLookups deferred).eraseLookups deferred = e.eraseLookups deferred ∧
    (e.eraseLookups deferred).eraseLookups later =
      (e.eraseLookups later).eraseLookups deferred := by
  have none_left (position : List Nat) (part : Expr)
      (found : at? position (e.eraseLookups deferred) = some part) : ¬ IsLookup deferred part :=
    not_isLookup_eraseLookups (mem_parts_iff.mpr ⟨position, found⟩)
  refine ⟨none_left, ?_, ?_, eraseLookups_eraseLookups deferred later e, ?_, ?_⟩
  · constructor
    · intro same position part found
      exact none_left position part (same.symm ▸ found)
    · intro free
      apply eraseLookups_eq_self
      intro part inside
      obtain ⟨position, found⟩ := mem_parts_iff.mp inside
      exact free position part found
  · intro name
    rw [mem_identifiers, mem_mentions_iff]
    exact exists_congr fun position => at?_eraseLookups_eq_ident
  · simp [eraseLookups_eraseLookups]
  · simp [eraseLookups_eraseLookups, Bool.or_comm]

/-- A chain of lookups into one validator, which is mentioned once more, beside a lookup into
another one. -/
def lookupChain : Expr :=
  let field (target : Expr) (key : String) : Expr := .member (.member target shapeName) key
  .array [field (field (.ident "node") "left") "right", .arrow (.ident "node"),
    field (.ident "leaf") "value"]

theorem erasure_exact_chain :
    "node" ∈ (lookupChain.eraseLookups (· == "node")).identifiers ∧
    (lookupChain.eraseLookups (· == "node")).eraseLookups (· == "node") ≠ lookupChain ∧
    "leaf" ∉ ((lookupChain.eraseLookups (· == "node")).eraseLookups (· == "leaf")).identifiers := by
  obtain ⟨_, kept, mentioned, both, again, _⟩ :=
    erasure_exact lookupChain (· == "node") (· == "leaf")
  refine ⟨(mentioned "node").mpr ⟨[1, 0], rfl, ?_⟩, ?_, ?_⟩
  · rw [outside_cons rfl, outside_cons rfl, outside_nil]
    refine ⟨?_, ?_, ?_⟩
    all_goals
      rintro ⟨name, key, _, same⟩
      contradiction
  · rw [again]
    intro same
    exact kept.mp same [0, 0, 0] _ rfl ⟨"node", "left", rfl, rfl⟩
  · rw [both]
    decide

end Schemata.Expr
