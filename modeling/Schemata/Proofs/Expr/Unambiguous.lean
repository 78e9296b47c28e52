import Schemata.Proofs.Expr.Enclosed

/-! The text of an expression determines it. Each expression can be told from all others by its text,
however deep it stands and whatever follows that may follow an expression; since calls and members
are chained onto it at its end, an expression is compared with others head first. -/
namespace Schemata.Expr

open Text

variable {e : Expr} {depth : Nat} {rest rest' : List Char} {name : String}

/-! ## What is chained on -/

theorem Follows.ends (follows : Follows rest) : Ends isNamePart rest := by
  have free : ∀ c ∈ '.' :: '[' :: stops, isNamePart c = false := by
    rw [← List.all_iff_forall_prop]
    decide
  exact fun c first => free c (follows c first)

theorem Stops.follows (stop : Stops rest) : Follows rest :=
  fun c first => List.mem_cons_of_mem _ (List.mem_cons_of_mem _ (stop c first))

theorem call_unique {method other : String} {args more : List Expr}
    (isName : isIdentifier method = true) (isName' : isIdentifier other = true)
    (readable : ∀ arg ∈ args, arg.Legible) (told : ∀ arg ∈ args, arg.Unambiguous)
    (legible : ∀ arg ∈ more, arg.Legible)
    (same : (Link.call method args).layout depth ++ rest =
      (Link.call other more).layout depth ++ rest') :
    method = other ∧ args = more ∧ rest = rest' := by
  simp only [Link.layout, List.cons_append, List.append_assoc, List.cons.injEq, true_and,
    List.nil_append] at same
  obtain ⟨methods, behind⟩ := name_unique isName isName' (ends_cons rfl) (ends_cons rfl) same
  obtain ⟨arguments, rests⟩ := layoutList_unique (by decide) (by decide) readable told legible
    (List.cons.inj behind).2
  exact ⟨methods, arguments, rests⟩

/-- A member is not followed by arguments. -/
theorem call_ne_member {method property : String} {args : List Expr}
    (isName : isIdentifier method = true) (follows : Follows rest') :
    (Link.call method args).layout depth ++ rest ≠ (Link.member property).layout depth ++ rest' := by
  intro same
  simp only [Link.layout, List.cons_append, List.append_assoc] at same
  split at same
  · rename_i bare
    obtain ⟨_, behind⟩ :=
      name_unique isName bare (ends_cons rfl) follows.ends (List.cons.inj same).2
    have paren : '(' ∈ '.' :: '[' :: stops := follows '(' (behind ▸ rfl)
    revert paren
    decide
  · exact absurd (List.cons.inj same).1 (by decide)

theorem member_unique {property other : String} (follows : Follows rest) (follows' : Follows rest')
    (same : (Link.member property).layout depth ++ rest = (Link.member other).layout depth ++ rest') :
    property = other ∧ rest = rest' := by
  simp only [Link.layout] at same
  split at same
  · rename_i bare
    split at same
    · rename_i bare'
      exact name_unique bare bare' follows.ends follows'.ends (List.cons.inj same).2
    · exact absurd (List.cons.inj same).1 (by decide)
  · split at same
    · exact absurd (List.cons.inj same).1 (by decide)
    · simp only [List.cons_append, List.append_assoc, List.cons.injEq, true_and] at same
      obtain ⟨properties, behind⟩ := Quoted.encode_unique same
      exact ⟨properties, (List.cons.inj behind).2⟩

theorem link_unique {link other : Link} (readable : link.Legible)
    (told : ∀ arg ∈ link.args, arg.Unambiguous) (legible : other.Legible) (follows : Follows rest)
    (follows' : Follows rest')
    (same : link.layout depth ++ rest = other.layout depth ++ rest') :
    link = other ∧ rest = rest' := by
  cases link with
  | call method args =>
    cases other with
    | call method' args' =>
      obtain ⟨rfl, rfl, rests⟩ :=
        call_unique readable.1 legible.1 readable.2 told legible.2 same
      exact ⟨rfl, rests⟩
    | member property => exact absurd same (call_ne_member readable.1 follows')
  | member property =>
    cases other with
    | call method args => exact absurd same.symm (call_ne_member legible.1 follows)
    | member property' =>
      obtain ⟨rfl, rests⟩ := member_unique follows follows' same
      exact ⟨rfl, rests⟩

theorem link_begins (depth : Nat) (link : Link) : ∃ c text, link.layout depth = c :: text ∧ c ∈ ['.', '['] := by
  cases link with
  | call method args => exact ⟨'.', _, rfl, by decide⟩
  | member property =>
    rw [Link.layout]
    split
    · exact ⟨'.', _, rfl, by decide⟩
    · exact ⟨'[', _, rfl, by decide⟩

variable {links more : List Link}

theorem links_follow (links : List Link) (stop : Stops rest) :
    Follows (links.flatMap (Link.layout depth) ++ rest) := by
  cases links with
  | nil => exact stop.follows
  | cons link links =>
    obtain ⟨c, text, form, opens⟩ := link_begins depth link
    rw [List.flatMap_cons, form]
    rintro d ⟨⟩
    exact List.mem_append_left stops opens

theorem link_ne_stop (link : Link) {text : List Char} (stop : Stops rest) :
    link.layout depth ++ text ≠ rest := by
  obtain ⟨c, tail, form, opens⟩ := link_begins depth link
  rintro rfl
  have apart : ∀ c ∈ ['.', '['], c ∉ stops := by
    rw [← List.all_iff_forall_prop]
    decide
  rw [form] at stop
  exact apart c opens (stop c rfl)

theorem links_unique (readable : ∀ link ∈ links, link.Legible)
    (told : ∀ link ∈ links, ∀ arg ∈ link.args, arg.Unambiguous)
    (legible : ∀ link ∈ more, link.Legible) (stop : Stops rest) (stop' : Stops rest')
    (same : links.flatMap (Link.layout depth) ++ rest = more.flatMap (Link.layout depth) ++ rest') :
    links = more ∧ rest = rest' := by
  induction links generalizing more with
  | nil =>
    cases more with
    | nil => exact ⟨rfl, same⟩
    | cons link more =>
      rw [List.flatMap_cons, List.append_assoc] at same
      exact absurd same.symm (link_ne_stop link stop)
  | cons link links ih =>
    cases more with
    | nil =>
      rw [List.flatMap_cons, List.append_assoc] at same
      exact absurd same (link_ne_stop link stop')
    | cons other more =>
      obtain ⟨readableFirst, readableRest⟩ := List.forall_mem_cons.mp readable
      obtain ⟨toldFirst, toldRest⟩ := List.forall_mem_cons.mp told
      obtain ⟨legibleFirst, legibleRest⟩ := List.forall_mem_cons.mp legible
      rw [List.flatMap_cons, List.flatMap_cons, List.append_assoc, List.append_assoc] at same
      obtain ⟨rfl, behind⟩ := link_unique readableFirst toldFirst legibleFirst
        (links_follow links stop) (links_follow more stop') same
      obtain ⟨rfl, rests⟩ := ih readableRest toldRest legibleRest behind
      exact ⟨rfl, rests⟩

/-! ## Heads -/

theorem lead_eq {e other : Expr} (legible : e.Legible) (legible' : other.Legible)
    (same : layout depth e ++ rest = layout depth other ++ rest') : e.lead = other.lead := by
  obtain ⟨c, text, form, lead, _⟩ := layout_begins depth legible
  obtain ⟨c', text', form', lead', _⟩ := layout_begins depth legible'
  rw [form, form'] at same
  rw [← lead, ← lead', (List.cons.inj same).1]

theorem legible_ident : (ident name).Legible ↔ isIdentifier name = true ∧ name ∉ reserved := by
  rw [legible_iff, isLegible, Bool.and_eq_true, Bool.not_eq_true', ← Bool.not_eq_true,
    List.contains_iff_mem]
  exact and_iff_left (List.forall_mem_nil _)

def boolName (value : Bool) : String := if value then "true" else "false"

/-- The name that a word begins with, and what belongs to it behind that. -/
def spelling (depth : Nat) : Expr → String × List Char
  | .zod method args => (namespaceName, (Link.call method args).layout depth)
  | .ident name => (name, [])
  | .bool value => (boolName value, [])
  | _ => ("", [])

theorem spelling_spec {e : Expr} (isHead : e.isHead = true) (word : e.lead = .word)
    (legible : e.Legible) (depth : Nat) :
    layout depth e = (spelling depth e).1.toList ++ (spelling depth e).2 ∧
      isIdentifier (spelling depth e).1 = true ∧
      ∀ {rest : List Char}, Follows rest → Follows ((spelling depth e).2 ++ rest) := by
  cases e with
  | zod method args =>
    have isName : isIdentifier namespaceName = true := by decide
    refine ⟨by rw [layout, spelling, Link.layout], isName, fun _ => ?_⟩
    rintro c ⟨⟩
    decide
  | ident name =>
    exact ⟨(List.append_nil _).symm, (legible_ident.mp legible).1, fun follows => follows⟩
  | bool value =>
    have isName : ∀ value, isIdentifier (boolName value) = true := by decide
    have text : layoutBool value = (boolName value).toList := by
      cases value with
      | false => rfl
      | true => rfl
    refine ⟨?_, isName value, fun follows => follows⟩
    rw [layout, text]
    exact (List.append_nil _).symm
  | _ => first | exact Bool.noConfusion isHead | exact Lead.noConfusion word

theorem word_unique {head other : Expr} (isHead : head.isHead = true) (isHead' : other.isHead = true)
    (word : head.lead = .word) (word' : other.lead = .word) (legible : head.Legible)
    (legible' : other.Legible) (told : ∀ child ∈ head.children, child.Unambiguous)
    (follows : Follows rest) (follows' : Follows rest')
    (same : layout depth head ++ rest = layout depth other ++ rest') :
    head = other ∧ rest = rest' := by
  obtain ⟨form, isName, followed⟩ := spelling_spec isHead word legible depth
  obtain ⟨form', isName', followed'⟩ := spelling_spec isHead' word' legible' depth
  rw [form, form', List.append_assoc, List.append_assoc] at same
  obtain ⟨names, behind⟩ :=
    name_unique isName isName' (followed follows).ends (followed' follows').ends same
  have reservedZ : namespaceName ∈ reserved := by decide
  have reservedBool : ∀ value, boolName value ∈ reserved := by decide
  have apart : ∀ value, namespaceName ≠ boolName value := by decide
  have bools : ∀ value value', boolName value = boolName value' → value = value' := by decide
  cases head with
  | zod method args =>
    cases other with
    | zod method' args' =>
      obtain ⟨rfl, rfl, rests⟩ := call_unique (legible_iff.mp legible).1 (legible_iff.mp legible').1
        (legible_iff.mp legible).2 told (legible_iff.mp legible').2 behind
      exact ⟨rfl, rests⟩
    | ident name =>
      obtain rfl : namespaceName = name := names
      exact absurd reservedZ (legible_ident.mp legible').2
    | bool value => exact absurd names (apart value)
    | _ => first | exact Bool.noConfusion isHead' | exact Lead.noConfusion word'
  | ident name =>
    cases other with
    | zod method args =>
      obtain rfl : name = namespaceName := names
      exact absurd reservedZ (legible_ident.mp legible).2
    | ident name' =>
      obtain rfl : name = name' := names
      exact ⟨rfl, behind⟩
    | bool value =>
      obtain rfl : name = boolName value := names
      exact absurd (reservedBool value) (legible_ident.mp legible).2
    | _ => first | exact Bool.noConfusion isHead' | exact Lead.noConfusion word'
  | bool value =>
    cases other with
    | zod method args => exact absurd names.symm (apart value)
    | ident name =>
      obtain rfl : boolName value = name := names
      exact absurd (reservedBool value) (legible_ident.mp legible').2
    | bool value' =>
      obtain rfl := bools value value' names
      exact ⟨rfl, behind⟩
    | _ => first | exact Bool.noConfusion isHead' | exact Lead.noConfusion word'
  | _ => first | exact Bool.noConfusion isHead | exact Lead.noConfusion word

/-- Two heads are told from each other by what they begin with, then by their parts. -/
theorem head_unique {head other : Expr} (isHead : head.isHead = true) (isHead' : other.isHead = true)
    (legible : head.Legible) (legible' : other.Legible)
    (told : ∀ child ∈ head.children, child.Unambiguous) (follows : Follows rest)
    (follows' : Follows rest') (ends : head.isTarget = false → Stops rest)
    (ends' : other.isTarget = false → Stops rest')
    (same : layout depth head ++ rest = layout depth other ++ rest') :
    head = other ∧ rest = rest' := by
  have leads := lead_eq legible legible' same
  have readable := (legible_iff.mp legible).2
  have readable' := (legible_iff.mp legible').2
  cases head with
  | zod | ident | bool =>
    exact word_unique isHead isHead' rfl leads.symm legible legible' told follows follows' same
  | str value =>
    cases other with
    | str value' =>
      obtain ⟨rfl, rests⟩ := Quoted.encode_unique same
      exact ⟨rfl, rests⟩
    | _ => first | exact Bool.noConfusion isHead' | exact Lead.noConfusion leads
  | number text =>
    cases other with
    | number text' =>
      -- A point goes on with a number, so what follows has to be known to stop.
      have first := (integer_mem (legible_iff.mp legible).1).2
      have second := (integer_mem (legible_iff.mp legible').1).2
      have free : ∀ c ∈ stops, numerals.contains c = false := by
        rw [← List.all_iff_forall_prop]
        decide
      obtain ⟨texts, rests⟩ := run_unique
        (fun c member => List.contains_iff_mem.mpr (first c member))
        (fun c member => List.contains_iff_mem.mpr (second c member))
        (fun c next => free c (ends rfl c next)) (fun c next => free c (ends' rfl c next)) same
      obtain rfl := String.toList_inj.mp texts
      exact ⟨rfl, rests⟩
    | _ => first | exact Bool.noConfusion isHead' | exact Lead.noConfusion leads
  | array items =>
    cases other with
    | array items' =>
      simp only [layout, List.cons_append, List.append_assoc, List.cons.injEq, true_and,
        List.nil_append] at same
      obtain ⟨rfl, rests⟩ :=
        layoutList_unique (by decide) (by decide) readable told readable' same
      exact ⟨rfl, rests⟩
    | _ => first | exact Bool.noConfusion isHead' | exact Lead.noConfusion leads
  | object fields =>
    cases other with
    | object fields' =>
      simp only [layout_object, List.cons_append, List.cons.injEq, true_and] at same
      simp only [children, List.forall_mem_map] at readable readable' told
      obtain ⟨rfl, rests⟩ := layoutBody_unique readable told readable' same
      exact ⟨rfl, rests⟩
    | _ => first | exact Bool.noConfusion isHead' | exact Lead.noConfusion leads
  | arrow body =>
    cases other with
    | arrow body' =>
      simp only [layout, List.append_assoc, List.append_cancel_left_eq] at same
      have ofBody := told body (List.mem_singleton_self _)
      obtain ⟨rfl, rests⟩ := ofBody depth body' rest rest'
        (readable' body' (List.mem_singleton_self _)) (ends rfl) (ends' rfl) same
      exact ⟨rfl, rests⟩
    | _ => first | exact Bool.noConfusion isHead' | exact Lead.noConfusion leads
  | call | member | raw => exact Bool.noConfusion isHead

/-! ## Chains -/

theorem headed_told {head : Expr} (isHead : head.isHead = true) (legible : head.Legible)
    (told : ∀ child ∈ head.children, child.Unambiguous) (readable : ∀ link ∈ links, link.Legible)
    (toldLinks : ∀ link ∈ links, ∀ arg ∈ link.args, arg.Unambiguous)
    (target : links ≠ [] → head.isTarget = true) :
    Told (layout depth) Legible (chain head links) := by
  intro other rest rest' legible' stop stop' same
  obtain ⟨head', links', chained⟩ := exists_chainOf legible'
  obtain rfl := chained.whole
  rw [layout_chain, layout_chain, List.append_assoc, List.append_assoc] at same
  have bare {links : List Link} {head : Expr} {rest : List Char} (stop : Stops rest)
      (target : links ≠ [] → head.isTarget = true) (loose : head.isTarget = false) :
      Stops (links.flatMap (Link.layout depth) ++ rest) := by
    by_cases none : links = []
    · rw [none]
      exact stop
    · exact absurd (target none) (Bool.eq_false_iff.mp loose)
  obtain ⟨rfl, behind⟩ := head_unique isHead chained.isHead legible chained.legible told
    (links_follow links stop) (links_follow links' stop') (bare stop target)
    (bare stop' chained.target) same
  obtain ⟨rfl, rests⟩ := links_unique readable toldLinks chained.linked stop stop' behind
  exact ⟨rfl, rests⟩

/-- With calls and members taken off its end until a head is left, every expression can be told from
all others by its text. -/
theorem chain_told (e : Expr) (legible : e.Legible) (links : List Link)
    (readable : ∀ link ∈ links, link.Legible)
    (told : ∀ link ∈ links, ∀ arg ∈ link.args, arg.Unambiguous)
    (target : links ≠ [] → e.isTarget = true) (depth : Nat) :
    Told (layout depth) Legible (chain e links) := by
  induction e using children_induction generalizing links depth with
  | node e ih =>
    -- The links grow while the expression shrinks: a child is compared with nothing chained onto it,
    -- the target of a call or member with this call or member in front of the other links.
    have inside := (legible_iff.mp legible).2
    have below : ∀ child ∈ e.children, child.Unambiguous := fun child member depth =>
      ih child member (inside child member) [] (List.forall_mem_nil _) (List.forall_mem_nil _)
        (fun more => absurd rfl more) depth
    cases e with
    | call callee method args =>
      obtain ⟨named, allowed, before, others⟩ := legible_call.mp legible
      have link : (Link.call method args).Legible := ⟨named, others⟩
      have ofArgs : ∀ arg ∈ args, arg.Unambiguous :=
        fun arg member => below arg (List.mem_cons_of_mem _ member)
      exact ih callee List.mem_cons_self before (.call method args :: links)
        (List.forall_mem_cons.mpr ⟨link, readable⟩) (List.forall_mem_cons.mpr ⟨ofArgs, told⟩)
        (fun _ => allowed) depth
    | member object property =>
      obtain ⟨allowed, before⟩ := legible_member.mp legible
      have link : (Link.member property).Legible := trivial
      exact ih object (List.mem_singleton_self _) before (.member property :: links)
        (List.forall_mem_cons.mpr ⟨link, readable⟩)
        (List.forall_mem_cons.mpr ⟨List.forall_mem_nil _, told⟩) (fun _ => allowed) depth
    | raw text => exact absurd (legible_iff.mp legible).1 Bool.false_ne_true
    | _ => exact headed_told rfl legible below readable told target

theorem unambiguous (legible : e.Legible) : e.Unambiguous :=
  chain_told e legible [] (List.forall_mem_nil _) (List.forall_mem_nil _)
    fun more => absurd rfl more

/-- Expressions that can be read back have the same text only if they are the same. -/
theorem render_eq_iff {a b : Expr} (first : a.Legible) (second : b.Legible) :
    a.render = b.render ↔ a = b := by
  constructor
  · intro same
    have texts : layout 0 a ++ [] = layout 0 b ++ [] := by
      rw [List.append_nil, List.append_nil]
      exact String.ofList_injective same
    have stop : Stops [] := fun _ none => nomatch none
    exact (unambiguous first 0 b [] [] second stop stop texts).1
  · rintro rfl
    rfl

/-- A member whose name has to be quoted, and two members. -/
theorem render_quoted_ne_dotted :
    let quoted : Expr := .call (.member (.ident "x") "a.b") "pick" [.object [("k", .bool true)]]
    let dotted : Expr :=
      .call (.member (.member (.ident "x") "a") "b") "pick" [.object [("k", .bool true)]]
    quoted.Legible ∧ dotted.Legible ∧ quoted.render ≠ dotted.render := by
  intro quoted dotted
  have first : quoted.Legible := by decide
  have second : dotted.Legible := by decide
  have differ : quoted ≠ dotted := by
    intro same
    have targets := (Expr.call.inj same).1
    exact absurd (Expr.member.inj targets).2 (by decide)
  exact ⟨first, second, fun same => differ ((render_eq_iff first second).mp same)⟩

end Schemata.Expr
