import Schemata.Proofs.Expr.Children
import Schemata.Proofs.Expr.Writer

/-! Indentation. An expression that stands deeper is laid out as at the start of a line, with as
much more space behind each of its line breaks, so long as it makes all line breaks itself and takes
none over from a name or a fragment. So every part of an expression stands in its text as its own text,
shifted by the nesting of the place where it stands. -/
namespace Schemata.Expr

open Text

/-- Puts the space of a nesting behind each line break. -/
def shift (depth : Nat) (text : List Char) : List Char :=
  text.flatMap fun c => if c = '\n' then '\n' :: indent depth else [c]

/-- What stands in the text of an expression, its parts apart, as it is. -/
def verbatim : Expr → List Char
  | .zod method _ | .call _ method _ => method.toList
  | .ident text | .number text | .raw text => text.toList
  | _ => []

/-- Without a line break in a name, a number or a fragment. -/
def Unbroken (e : Expr) : Prop := ∀ part ∈ e.parts, '\n' ∉ verbatim part

instance (e : Expr) : Decidable e.Unbroken :=
  inferInstanceAs (Decidable (∀ part ∈ e.parts, '\n' ∉ verbatim part))

/-- Whether the children of an expression stand on lines of their own. -/
def opensLines : Expr → Bool
  | .object fields => !isMask fields
  | _ => false

/-- How much deeper than an expression its children stand. -/
def inset (e : Expr) : Nat := if opensLines e then 1 else 0

/-- How much deeper than an expression its part at a position stands. -/
def nesting : List Nat → Expr → Nat
  | [], _ => 0
  | i :: rest, e => inset e + (e.children[i]?).elim 0 (nesting rest)

variable {e child part : Expr} {es : List Expr} {fields : List (String × Expr)} {depth : Nat}
  {text : List Char} {position : List Nat}

theorem unbroken_iff : e.Unbroken ↔ '\n' ∉ verbatim e ∧ ∀ child ∈ e.children, child.Unbroken := by
  simp only [Unbroken, parts_eq e, List.forall_mem_cons, List.forall_mem_flatMap]

/-! ## Shifted texts -/

theorem shift_append (depth : Nat) (front behind : List Char) :
    shift depth (front ++ behind) = shift depth front ++ shift depth behind := List.flatMap_append

theorem shift_newline (depth : Nat) (text : List Char) :
    shift depth ('\n' :: text) = '\n' :: (indent depth ++ shift depth text) := rfl

theorem shift_cons {c : Char} (plain : c ≠ '\n') (depth : Nat) (text : List Char) :
    shift depth (c :: text) = c :: shift depth text := by
  rw [shift, List.flatMap_cons, if_neg plain]
  rfl

theorem shift_line (line : '\n' ∉ text) (depth : Nat) : shift depth text = text := by
  induction text with
  | nil => rfl
  | cons c rest ih =>
    obtain ⟨plain, later⟩ := List.ne_and_not_mem_of_not_mem_cons line
    rw [shift_cons plain.symm, ih later]

theorem indent_add (depth more : Nat) : indent (depth + more) = indent depth ++ indent more := by
  rw [indent, Nat.mul_add, List.replicate_add]
  rfl

theorem shift_commas (depth : Nat) (texts : List (List Char)) :
    shift depth (commas texts) = commas (texts.map (shift depth)) := by
  have behind (texts : List (List Char)) :
      shift depth (texts.flatMap fun next => ',' :: ' ' :: next) =
        (texts.map (shift depth)).flatMap fun next => ',' :: ' ' :: next := by
    induction texts with
    | nil => rfl
    | cons text texts ih => rw [List.flatMap_cons, shift_append, ih]; rfl
  cases texts with
  | nil => rfl
  | cons text texts => rw [commas, shift_append, behind]; rfl

/-! ## Lines -/

theorem line_indent (depth : Nat) : '\n' ∉ indent depth :=
  fun member => absurd (List.eq_of_mem_replicate member) (by decide)

theorem line_layoutBool (value : Bool) : '\n' ∉ layoutBool value := by cases value <;> decide

theorem line_name {name : String} (isName : isIdentifier name = true) : '\n' ∉ name.toList :=
  fun member => absurd (isName_parts isName '\n' member) (by decide)

theorem line_layoutKey (key : String) : '\n' ∉ layoutKey key := by
  unfold layoutKey
  split
  · exact line_name ‹_›
  · exact Quoted.line_encode key.toList

/-! ## Deeper layouts -/

/-- Standing deeper makes no difference but the space behind line breaks. -/
def Shifts (e : Expr) : Prop := ∀ more depth, layout (more + depth) e = shift more (layout depth e)

theorem layoutList_shift (each : ∀ e ∈ es, e.Shifts) (more depth : Nat) :
    layoutList (more + depth) es = shift more (layoutList depth es) := by
  rw [layoutList_eq, layoutList_eq, shift_commas, List.map_map]
  exact congrArg commas (List.map_congr_left fun e member => each e member more depth)

theorem layoutField_shift {field : String × Expr} (shifts : field.2.Shifts) (more depth : Nat) :
    layoutField (more + depth) field = shift more (layoutField depth field) := by
  rw [layoutField, layoutField, shift_append, shift_line (line_layoutKey field.1),
    shift_cons (by decide), shift_cons (by decide), shifts]

theorem layoutMask_shift (each : ∀ field ∈ fields, field.2.Shifts) (more depth : Nat) :
    layoutMask (more + depth) fields = shift more (layoutMask depth fields) := by
  rw [layoutMask_eq, layoutMask_eq, shift_commas, List.map_map]
  exact congrArg commas
    (List.map_congr_left fun field member => layoutField_shift (each field member) more depth)

/-- The space that belongs in front of each line stands behind the line break in front of it. -/
theorem layoutFields_shift (each : ∀ field ∈ fields, field.2.Shifts) (more depth : Nat) :
    indent more ++ shift more (layoutFields depth fields) =
      layoutFields (more + depth) fields ++ indent more := by
  rw [layoutFields_eq, layoutFields_eq]
  induction fields with
  | nil => exact List.append_nil _
  | cons field fields ih =>
    obtain ⟨first, rest⟩ := List.forall_mem_cons.mp each
    have ending : shift more [',', '\n'] = ',' :: '\n' :: indent more :=
      congrArg (fun space => ',' :: '\n' :: space) (List.append_nil _)
    rw [List.flatMap_cons, List.flatMap_cons, List.append_assoc _ _ (indent more), ← ih rest,
      shift_append, shift_append, shift_append, shift_line (line_indent depth),
      ← layoutField_shift first, ending, indent_add]
    simp only [List.append_assoc, List.cons_append, List.nil_append]

/-- Whatever breaks no line itself is shifted as its children are. -/
theorem shifts (unbroken : e.Unbroken) : e.Shifts := by
  induction e with
  | zod method args ih =>
    obtain ⟨own, below⟩ := unbroken_iff.mp unbroken
    have line : '\n' ∉ method.toList := own
    have ofArgs := layoutList_shift fun arg member => ih arg member (below arg member)
    intro more depth
    simp (disch := decide) only [layout, ofArgs, shift_append, shift_cons, shift_line line,
      shift_line]
  | call target method args ofTarget ofArgs =>
    obtain ⟨own, below⟩ := unbroken_iff.mp unbroken
    have line : '\n' ∉ method.toList := own
    have target := ofTarget (below _ List.mem_cons_self)
    have args := layoutList_shift fun arg member =>
      ofArgs arg member (below arg (List.mem_cons_of_mem _ member))
    intro more depth
    simp (disch := decide) only [layout, target more, args, shift_append, shift_cons,
      shift_line line, shift_line]
  | member target property ih =>
    have target := ih ((unbroken_iff.mp unbroken).2 _ List.mem_cons_self)
    intro more depth
    rw [layout, layout, target, shift_append]
    split
    · rename_i isName
      rw [shift_cons (by decide), shift_line (line_name isName)]
    · simp (disch := decide) only [shift_append, shift_cons, shift_line (Quoted.line_encode _),
        shift_line]
  | array items ih =>
    have items := layoutList_shift fun item member =>
      ih item member ((unbroken_iff.mp unbroken).2 item member)
    intro more depth
    simp (disch := decide) only [layout, items, shift_append, shift_cons, shift_line]
  | object fields ih =>
    have each : ∀ field ∈ fields, field.2.Shifts := fun field member =>
      ih field member ((unbroken_iff.mp unbroken).2 _ (List.mem_map_of_mem member))
    intro more depth
    rw [layout, layout]
    split
    · rfl
    · split
      · simp (disch := decide) only [layoutMask_shift each, shift_append, shift_cons, shift_line]
      · have lines := layoutFields_shift each more (depth + 1)
        rw [shift_cons (by decide), shift_newline, shift_append, ← List.append_assoc (indent more),
          lines, shift_append, shift_line (line_indent depth), indent_add, List.append_assoc,
          List.append_assoc]
        rfl
  | arrow body ih =>
    have body := ih ((unbroken_iff.mp unbroken).2 _ List.mem_cons_self)
    intro more depth
    simp (disch := decide) only [layout, body more, shift_append, shift_line]
  | ident | number | raw =>
    exact fun more _ => (shift_line (unbroken_iff.mp unbroken).1 more).symm
  | str value => exact fun more _ => (shift_line (Quoted.line_encode value.toList) more).symm
  | bool value => exact fun more _ => (shift_line (line_layoutBool value) more).symm

theorem layout_eq_shift (unbroken : e.Unbroken) (depth : Nat) :
    layout depth e = shift depth e.render.toList := by
  rw [render, String.toList_ofList]
  exact shifts unbroken depth 0

/-! ## Parts -/

theorem infix_flatMap {α : Type} {a : α} {as : List α} (member : a ∈ as) (f : α → List Char) :
    f a <:+: as.flatMap f :=
  List.infix_of_mem_flatten (List.mem_map_of_mem member)

theorem infix_commas {texts : List (List Char)} (member : text ∈ texts) :
    text <:+: commas texts := by
  cases texts with
  | nil => contradiction
  | cons first texts =>
    rcases List.mem_cons.mp member with rfl | later
    · exact List.infix_append_left
    · have piece : text <:+: ',' :: ' ' :: text := List.infix_cons (List.infix_cons List.infix_rfl)
      have among := infix_flatMap later fun next : List Char => ',' :: ' ' :: next
      exact List.infix_append_of_infix_right (piece.trans among)

theorem infix_layoutList (member : e ∈ es) (depth : Nat) :
    layout depth e <:+: layoutList depth es := by
  rw [layoutList_eq]
  exact infix_commas (List.mem_map_of_mem member)

theorem infix_layoutField (field : String × Expr) (depth : Nat) :
    layout depth field.2 <:+: layoutField depth field :=
  List.infix_append_of_infix_right (List.infix_cons (List.infix_cons List.infix_rfl))

/-- The text of a child stands in that of its parent, one level deeper where it is on a line of its
own. -/
theorem infix_layout_child (below : child ∈ e.children) (depth : Nat) :
    layout (depth + inset e) child <:+: layout depth e := by
  cases e with
  | zod method args =>
    rw [layout]
    exact List.infix_append_of_infix_right (List.infix_cons (List.infix_append_of_infix_right
      (List.infix_cons (List.infix_append_of_infix_left (infix_layoutList below depth)))))
  | call target method args =>
    rw [layout]
    rcases List.mem_cons.mp below with rfl | later
    · exact List.infix_append_left
    · exact List.infix_append_of_infix_right (List.infix_cons (List.infix_append_of_infix_right
        (List.infix_cons (List.infix_append_of_infix_left (infix_layoutList later depth)))))
  | member target property =>
    obtain rfl := List.mem_singleton.mp below
    exact List.infix_append_left
  | array items =>
    exact List.infix_cons (List.infix_append_of_infix_left (infix_layoutList below depth))
  | object fields =>
    obtain ⟨field, member, rfl⟩ := List.mem_map.mp below
    have some : ¬ fields.isEmpty := fun none => List.ne_nil_of_mem member (List.isEmpty_iff.mp none)
    rw [layout, if_neg some, inset, opensLines]
    cases mask : isMask fields with
    | true =>
      have onLine : layout depth field.2 <:+: layoutMask depth fields := by
        rw [layoutMask_eq]
        exact (infix_layoutField field depth).trans (infix_commas (List.mem_map_of_mem member))
      exact List.infix_cons (List.infix_cons (List.infix_append_of_infix_left onLine))
    | false =>
      have onLines : layout (depth + 1) field.2 <:+: layoutFields (depth + 1) fields := by
        have among := infix_flatMap member fun field =>
          indent (depth + 1) ++ (layoutField (depth + 1) field ++ [',', '\n'])
        rw [layoutFields_eq]
        exact (List.infix_append_of_infix_right
          (List.infix_append_of_infix_left (infix_layoutField field (depth + 1)))).trans among
      exact List.infix_cons (List.infix_cons (List.infix_append_of_infix_left onLines))
  | arrow body =>
    obtain rfl := List.mem_singleton.mp below
    exact List.infix_append_right
  | ident | str | number | bool | raw => contradiction

theorem infix_layout_part (found : at? position e = some part) (depth : Nat) :
    layout (depth + nesting position e) part <:+: layout depth e := by
  induction position generalizing e depth with
  | nil =>
    obtain rfl := Option.some.inj found
    exact List.infix_rfl
  | cons i rest ih =>
    obtain ⟨child, isChild, there⟩ := at?_cons_eq_some.mp found
    have deeper := ih there (depth + inset e)
    rw [nesting, isChild, Option.elim_some, ← Nat.add_assoc]
    exact deeper.trans (infix_layout_child (List.mem_of_getElem? isChild) depth)

theorem unbroken_part (unbroken : e.Unbroken) (found : at? position e = some part) :
    part.Unbroken := by
  induction position generalizing e with
  | nil => exact Option.some.inj found ▸ unbroken
  | cons i rest ih =>
    obtain ⟨child, isChild, there⟩ := at?_cons_eq_some.mp found
    exact ih ((unbroken_iff.mp unbroken).2 child (List.mem_of_getElem? isChild)) there

/-- A writer appends the text that an expression has at the start of a line, shifted by its nesting,
which stays as it was; and so each part of the expression stands in that text, shifted by as much
more as it is nested deeper. -/
theorem expr_writes_shifted (unbroken : e.Unbroken) (w : Writer) :
    w.expr e = ⟨w.out ++ shift w.depth e.render.toList, w.depth⟩ ∧
      ∀ position part, at? position e = some part →
        shift (w.depth + nesting position e) part.render.toList <:+:
          shift w.depth e.render.toList := by
  constructor
  · rw [Writer.expr_eq, layout_eq_shift unbroken]
    rfl
  · intro position part found
    rw [← layout_eq_shift unbroken, ← layout_eq_shift (unbroken_part unbroken found)]
    exact infix_layout_part found w.depth

/-- An object in a field of an object, beside line breaks that are quoted. -/
theorem expr_writes_shifted_field :
    let inner : Expr := .zod "object" [.object [("tag", schema "string")]]
    let outer : Expr :=
      .zod "object" [.object [("a\nb", .zod "literal" [.str "c\nd"]), ("meta", inner)]]
    let w : Writer := ⟨"x: ".toList, 2⟩
    outer.Unbroken ∧ at? [0, 1] outer = some inner ∧ nesting [0, 1] outer = 1 ∧
      w.expr outer = ⟨"x: ".toList ++ shift 2 outer.render.toList, 2⟩ ∧
      shift 3 inner.render.toList <:+: shift 2 outer.render.toList := by
  intro inner outer w
  have unbroken : outer.Unbroken := by decide
  obtain ⟨whole, parts⟩ := expr_writes_shifted unbroken w
  exact ⟨unbroken, rfl, rfl, whole, parts [0, 1] inner rfl⟩

end Schemata.Expr
