import Schemata.Proofs.Expr.Enclosed

/-! Expressions written piece by piece. A writer has the text so far and the nesting of the line
that it is on; for the fields of an object it goes one level deeper, and back again behind them.
What it appends for an expression is the layout at its nesting, and afterwards it is as deep as
before. -/
namespace Schemata.Expr

open Text

structure Writer where
  out : List Char
  depth : Nat

namespace Writer

def put (w : Writer) (text : List Char) : Writer := { w with out := w.out ++ text }

def deeper (w : Writer) : Writer := { w with depth := w.depth + 1 }

def shallower (w : Writer) : Writer := { w with depth := w.depth - 1 }

/-- Two spaces, once for each level. -/
def pad (w : Writer) : Writer := Nat.repeat (put · [' ', ' ']) w.depth w

def key (w : Writer) (name : String) : Writer := (w.put (layoutKey name)).put [':', ' ']

/-- What sets an item apart from those in front of it, if there are any. -/
def comma (w : Writer) (started : Bool) : Writer := if started then w.put [',', ' '] else w

mutual

def expr (w : Writer) : Expr → Writer
  | .zod method args =>
    let opened := ((w.put namespaceName.toList).put ('.' :: method.toList)).put ['(']
    (list opened false args).put [')']
  | .call target method args =>
    let opened := ((expr w target).put ('.' :: method.toList)).put ['(']
    (list opened false args).put [')']
  | .member target property =>
    if isIdentifier property then (expr w target).put ('.' :: property.toList)
    else (((expr w target).put ['[']).put (Quoted.encode property.toList)).put [']']
  | .ident text | .number text | .raw text => w.put text.toList
  | .str value => w.put (Quoted.encode value.toList)
  | .bool value => w.put (layoutBool value)
  | .array items => (list (w.put ['[']) false items).put [']']
  | .object fields =>
    if fields.isEmpty then w.put ['{', '}']
    else if isMask fields then (mask (w.put ['{', ' ']) false fields).put [' ', '}']
    else (lines (w.put ['{', '\n']).deeper fields).shallower.pad.put ['}']
  | .arrow body => expr (w.put "() => ".toList) body

/-- Items on one line. -/
def list (w : Writer) (started : Bool) : List Expr → Writer
  | [] => w
  | e :: es => list (expr (w.comma started) e) true es

/-- Fields on one line. -/
def mask (w : Writer) (started : Bool) : List (String × Expr) → Writer
  | [] => w
  | (name, e) :: es => mask (expr ((w.comma started).key name) e) true es

/-- Fields on lines of their own. -/
def lines (w : Writer) : List (String × Expr) → Writer
  | [] => w
  | (name, e) :: es => lines ((expr (w.pad.key name) e).put [',', '\n']) es

end

variable {w : Writer} {e : Expr} {es : List Expr} {fields : List (String × Expr)}

/-! ## Pieces -/

theorem put_nil (w : Writer) : w.put [] = w := by rw [put, List.append_nil]

theorem put_put (w : Writer) (text more : List Char) :
    (w.put text).put more = w.put (text ++ more) := by
  rw [put, put, put, List.append_assoc]

theorem depth_put (w : Writer) (text : List Char) : (w.put text).depth = w.depth := rfl

theorem depth_deeper (w : Writer) : w.deeper.depth = w.depth + 1 := rfl

theorem shallower_deeper (w : Writer) (text : List Char) :
    (w.deeper.put text).shallower = w.put text := rfl

theorem repeat_put (count : Nat) (w : Writer) :
    Nat.repeat (put · [' ', ' ']) count w = w.put (indent count) := by
  induction count with
  | zero => exact (put_nil w).symm
  | succ count ih => rw [Nat.repeat, ih, put_put, indent_succ]

theorem pad_eq (w : Writer) : w.pad = w.put (indent w.depth) := repeat_put w.depth w

theorem key_eq (w : Writer) (name : String) : w.key name = w.put (layoutKey name ++ [':', ' ']) :=
  put_put ..

/-! ## Expressions -/

/-- Appending the layout of an expression, wherever it is written. -/
def Lays (e : Expr) : Prop := ∀ w : Writer, w.expr e = w.put (layout w.depth e)

theorem list_started (each : ∀ e ∈ es, Lays e) (w : Writer) :
    w.list true es = w.put (es.flatMap fun e => ',' :: ' ' :: layout w.depth e) := by
  induction es generalizing w with
  | nil => exact (put_nil w).symm
  | cons e es ih =>
    obtain ⟨first, rest⟩ := List.forall_mem_cons.mp each
    rw [list, comma, if_pos rfl, first, ih rest, put_put, put_put, List.flatMap_cons]
    rfl

theorem list_eq (each : ∀ e ∈ es, Lays e) (w : Writer) :
    w.list false es = w.put (layoutList w.depth es) := by
  rw [layoutList_eq]
  cases es with
  | nil => exact (put_nil w).symm
  | cons e es =>
    obtain ⟨first, rest⟩ := List.forall_mem_cons.mp each
    rw [list, comma, if_neg Bool.false_ne_true, first, list_started rest, put_put, List.map_cons,
      commas, List.flatMap_map]
    rfl

theorem mask_started (each : ∀ field ∈ fields, Lays field.2) (w : Writer) :
    w.mask true fields =
      w.put (fields.flatMap fun field => ',' :: ' ' :: layoutField w.depth field) := by
  induction fields generalizing w with
  | nil => exact (put_nil w).symm
  | cons field fields ih =>
    obtain ⟨first, rest⟩ := List.forall_mem_cons.mp each
    rw [mask, comma, if_pos rfl, key_eq, first, ih rest]
    simp only [put_put, depth_put, List.flatMap_cons, layoutField, List.append_assoc,
      List.cons_append, List.nil_append]

theorem mask_eq (each : ∀ field ∈ fields, Lays field.2) (w : Writer) :
    w.mask false fields = w.put (layoutMask w.depth fields) := by
  rw [layoutMask_eq]
  cases fields with
  | nil => exact (put_nil w).symm
  | cons field fields =>
    obtain ⟨first, rest⟩ := List.forall_mem_cons.mp each
    rw [mask, comma, if_neg Bool.false_ne_true, key_eq, first, mask_started rest]
    simp only [put_put, depth_put, List.map_cons, commas, List.flatMap_map, layoutField,
      List.append_assoc, List.cons_append, List.nil_append]

theorem lines_eq (each : ∀ field ∈ fields, Lays field.2) (w : Writer) :
    w.lines fields = w.put (layoutFields w.depth fields) := by
  induction fields generalizing w with
  | nil => exact (put_nil w).symm
  | cons field fields ih =>
    obtain ⟨first, rest⟩ := List.forall_mem_cons.mp each
    rw [lines, pad_eq, key_eq, first, ih rest]
    simp only [put_put, depth_put, layoutFields, List.append_assoc, List.cons_append,
      List.nil_append]

/-- A writer appends the layout of an expression at its nesting, which stays as it was. -/
theorem expr_eq (w : Writer) (e : Expr) : w.expr e = w.put (layout w.depth e) := by
  have lays : Lays e := by
    induction e with
    | zod method args ih =>
      intro w
      rw [expr, list_eq ih]
      simp only [put_put, depth_put, layout, List.append_assoc, List.cons_append, List.nil_append]
    | call target method args ofTarget ofArgs =>
      intro w
      rw [expr, ofTarget, list_eq ofArgs]
      simp only [put_put, depth_put, layout, List.append_assoc, List.cons_append, List.nil_append]
    | member target property ih =>
      intro w
      rw [expr, ih, layout]
      split
      · exact put_put ..
      · simp only [put_put, List.append_assoc, List.cons_append, List.nil_append]
    | array items ih =>
      intro w
      rw [expr, list_eq ih]
      simp only [put_put, depth_put, layout, List.cons_append, List.nil_append]
    | object fields ih =>
      intro w
      rw [expr, layout]
      split
      · rfl
      · split
        · rw [mask_eq ih]
          simp only [put_put, depth_put, List.cons_append, List.nil_append]
        · rw [lines_eq ih, shallower_deeper, pad_eq]
          simp only [put_put, depth_put, depth_deeper, List.append_assoc, List.cons_append,
            List.nil_append]
    | arrow body ih =>
      intro w
      rw [expr, ih, put_put, layout]
      rfl
    | ident | str | number | bool | raw => exact fun w => rfl
  exact lays w

end Writer

end Schemata.Expr
