import Mathlib.Data.Bool.AllAny
import Mathlib.Tactic.IntervalCases
import Schemata.Proofs.Expr.Chain
import Schemata.Proofs.Text.Delimited

/-! Expressions between brackets. No expression begins like what may follow one, so a list ends where
no comma goes on; fields on lines of their own end where a brace stands instead of deeper
indentation. Both are told from others by their text if their items are. -/
namespace Schemata.Expr

open Text

inductive Lead where
  | word
  | quote
  | bracket
  | brace
  | paren
  | numeral
  deriving DecidableEq

def leadOf (c : Char) : Lead :=
  if isNameStart c then .word
  else if c = '"' then .quote
  else if c = '[' then .bracket
  else if c = '\x7b' then .brace
  else if c = '(' then .paren
  else .numeral

def lead : Expr → Lead
  | .zod _ _ | .ident _ | .bool _ => .word
  | .call target _ _ | .member target _ => target.lead
  | .str _ => .quote
  | .array _ => .bracket
  | .object _ => .brace
  | .arrow _ => .paren
  | .number _ | .raw _ => .numeral

/-- What can stand behind an expression that ends. -/
def stops : List Char := [',', ')', ']', ' ']

def Stops (rest : List Char) : Prop := ∀ c ∈ rest.head?, c ∈ stops

/-- What can stand behind a part of an expression. -/
def Follows (rest : List Char) : Prop := ∀ c ∈ rest.head?, c ∈ '.' :: '[' :: stops

/-- A text with a first character that ends nothing. -/
def Begins (text : List Char) : Prop := ∃ c rest, text = c :: rest ∧ c ∉ stops

variable {e : Expr} {depth : Nat} {rest rest' : List Char} {name : String}

theorem name_begins (isName : isIdentifier name = true) :
    ∃ c rest, name.toList = c :: rest ∧ isNameStart c = true := by
  unfold isIdentifier at isName
  cases text : name.toList with
  | nil =>
    rw [text] at isName
    contradiction
  | cons c rest =>
    rw [text] at isName
    exact ⟨c, rest, rfl, (Bool.and_eq_true_iff.mp isName).1⟩

theorem nameStart_not_stop {c : Char} (start : isNameStart c = true) : c ∉ stops := by
  intro stop
  simp only [stops, List.mem_cons, List.not_mem_nil, or_false] at stop
  rcases stop with rfl | rfl | rfl | rfl <;> contradiction

def numerals : List Char := ['-', '0', '1', '2', '3', '4', '5', '6', '7', '8', '9']

theorem digit_mem {c : Char} (digit : c.isDigit = true) : c ∈ numerals := by
  simp only [Char.isDigit, Bool.and_eq_true, decide_eq_true_eq, UInt32.le_iff_toNat_le] at digit
  obtain ⟨lower, upper⟩ := digit
  change 48 ≤ c.toNat at lower
  change c.toNat ≤ 57 at upper
  rw [← Char.ofNat_toNat c]
  generalize c.toNat = n at lower upper
  interval_cases n <;> decide

theorem numeral_begins : ∀ c ∈ numerals, leadOf c = .numeral ∧ c ∉ stops := by
  rw [← List.all_iff_forall_prop]
  decide

theorem integer_mem {cs : List Char} (integer : isInteger cs = true) :
    cs ≠ [] ∧ ∀ c ∈ cs, c ∈ numerals := by
  have decimal {digits : List Char} (all : isDigits digits = true) :
      digits ≠ [] ∧ ∀ c ∈ digits, c ∈ numerals := by
    obtain ⟨some, each⟩ := Bool.and_eq_true_iff.mp all
    refine ⟨?_, fun c member => ?_⟩
    · rintro rfl
      contradiction
    · exact digit_mem (List.all_eq_true.mp each c member)
  unfold isInteger at integer
  split at integer
  · refine ⟨List.cons_ne_nil _ _, List.forall_mem_cons.mpr ⟨List.mem_cons_self, ?_⟩⟩
    exact (decimal integer).2
  · exact decimal integer

/-- An expression begins with what its head begins with. -/
theorem layout_begins (depth : Nat) (legible : e.Legible) :
    ∃ c rest, layout depth e = c :: rest ∧ leadOf c = e.lead ∧ c ∉ stops := by
  induction e with
  | call target method args ih _ =>
    obtain ⟨c, rest, text, begins⟩ := ih (legible_call.mp legible).2.2.1
    rw [layout, text]
    exact ⟨c, _, rfl, begins⟩
  | member target property ih =>
    obtain ⟨c, rest, text, begins⟩ := ih (legible_member.mp legible).2
    rw [layout, text]
    exact ⟨c, _, rfl, begins⟩
  | ident name =>
    obtain ⟨isName, _⟩ := Bool.and_eq_true_iff.mp (legible_iff.mp legible).1
    obtain ⟨c, rest, text, start⟩ := name_begins isName
    exact ⟨c, rest, text, if_pos start, nameStart_not_stop start⟩
  | number text =>
    obtain ⟨some, each⟩ := integer_mem (legible_iff.mp legible).1
    obtain ⟨c, rest, same⟩ := List.exists_cons_of_ne_nil some
    exact ⟨c, rest, same, numeral_begins c (each c (same ▸ List.mem_cons_self))⟩
  | object fields =>
    rw [layout]
    split
    · exact ⟨_, _, rfl, rfl, by decide⟩
    · split
      · exact ⟨_, _, rfl, rfl, by decide⟩
      · exact ⟨_, _, rfl, rfl, by decide⟩
  | bool value =>
    cases value with
    | false => exact ⟨'f', _, rfl, rfl, by decide⟩
    | true => exact ⟨'t', _, rfl, rfl, by decide⟩
  | raw => exact absurd (legible_iff.mp legible).1 Bool.false_ne_true
  | zod => exact ⟨'z', _, rfl, rfl, by decide⟩
  | arrow => exact ⟨'(', _, rfl, rfl, by decide⟩
  | array | str => exact ⟨_, _, rfl, rfl, by decide⟩

/-! ## Lists and fields -/

/-- One thing can be told from all others of a kind by its text, if something follows that stops. -/
def Told {α : Type} (text : α → List Char) (kind : α → Prop) (a : α) : Prop :=
  ∀ b rest rest', kind b → Stops rest → Stops rest' → text a ++ rest = text b ++ rest' →
    a = b ∧ rest = rest'

def commas : List (List Char) → List Char
  | [] => []
  | text :: texts => text ++ texts.flatMap fun next => ',' :: ' ' :: next

section Commas

variable {α : Type} {text : α → List Char} {kind : α → Prop} {as bs : List α} {close : Char}

theorem stops_tail (closes : close ∈ stops) (texts : List (List Char)) :
    Stops ((texts.flatMap fun next => ',' :: ' ' :: next) ++ close :: rest) := by
  cases texts with
  | nil =>
    rintro c ⟨⟩
    exact closes
  | cons text texts =>
    rintro c ⟨⟩
    decide

theorem tail_unique (closes : close ∈ stops) (apart : close ≠ ',') (told : ∀ a ∈ as, Told text kind a)
    (others : ∀ b ∈ bs, kind b)
    (same : ((as.map text).flatMap fun next => ',' :: ' ' :: next) ++ close :: rest =
      ((bs.map text).flatMap fun next => ',' :: ' ' :: next) ++ close :: rest') :
    as = bs ∧ rest = rest' := by
  induction as generalizing bs with
  | nil =>
    cases bs with
    | nil => exact ⟨rfl, (List.cons.inj same).2⟩
    | cons b bs => exact absurd (List.cons.inj same).1 apart
  | cons a as ih =>
    cases bs with
    | nil => exact absurd (List.cons.inj same).1.symm apart
    | cons b bs =>
      obtain ⟨first, toldRest⟩ := List.forall_mem_cons.mp told
      obtain ⟨kindFirst, kindRest⟩ := List.forall_mem_cons.mp others
      simp only [List.map_cons, List.flatMap_cons, List.cons_append, List.append_assoc,
        List.cons.injEq, true_and] at same
      obtain ⟨rfl, behind⟩ :=
        first b _ _ kindFirst (stops_tail closes _) (stops_tail closes _) same
      obtain ⟨rfl, rests⟩ := ih toldRest kindRest behind
      exact ⟨rfl, rests⟩

/-- A list is told by its items and by what closes it. -/
theorem commas_unique (begins : ∀ a, kind a → Begins (text a)) (closes : close ∈ stops)
    (apart : close ≠ ',') (kinds : ∀ a ∈ as, kind a) (told : ∀ a ∈ as, Told text kind a)
    (others : ∀ b ∈ bs, kind b)
    (same : commas (as.map text) ++ close :: rest = commas (bs.map text) ++ close :: rest') :
    as = bs ∧ rest = rest' := by
  have opened {a : α} (isKind : kind a) {more : List Char} : text a ++ more ≠ close :: rest ∧
      text a ++ more ≠ close :: rest' := by
    obtain ⟨c, tail, form, free⟩ := begins a isKind
    rw [form]
    constructor
    · rintro ⟨⟩
      exact free closes
    · rintro ⟨⟩
      exact free closes
  cases as with
  | nil =>
    cases bs with
    | nil => exact ⟨rfl, (List.cons.inj same).2⟩
    | cons b bs =>
      rw [List.map_cons, commas, List.append_assoc] at same
      exact absurd same.symm (opened (others b List.mem_cons_self)).1
  | cons a as =>
    cases bs with
    | nil =>
      rw [List.map_cons, commas, List.append_assoc] at same
      exact absurd same (opened (kinds a List.mem_cons_self)).2
    | cons b bs =>
      obtain ⟨first, toldRest⟩ := List.forall_mem_cons.mp told
      obtain ⟨kindFirst, kindRest⟩ := List.forall_mem_cons.mp others
      simp only [List.map_cons, commas, List.append_assoc] at same
      obtain ⟨rfl, behind⟩ :=
        first b _ _ kindFirst (stops_tail closes _) (stops_tail closes _) same
      obtain ⟨rfl, rests⟩ := tail_unique closes apart toldRest kindRest behind
      exact ⟨rfl, rests⟩

end Commas

theorem layoutList_eq (depth : Nat) (es : List Expr) :
    layoutList depth es = commas (es.map (layout depth)) := by
  induction es with
  | nil => rfl
  | cons e es ih =>
    cases es with
    | nil => exact (List.append_nil _).symm
    | cons next es =>
      rw [layoutList, ih]
      · rfl
      · exact List.cons_ne_nil _ _

def layoutField (depth : Nat) (field : String × Expr) : List Char :=
  layoutKey field.1 ++ ':' :: ' ' :: layout depth field.2

theorem layoutMask_eq (depth : Nat) (fields : List (String × Expr)) :
    layoutMask depth fields = commas (fields.map (layoutField depth)) := by
  induction fields with
  | nil => rfl
  | cons field fields ih =>
    cases fields with
    | nil => exact (List.append_nil _).symm
    | cons next fields =>
      rw [layoutMask, ih]
      · simp only [List.map_cons, commas, layoutField, List.flatMap_cons, List.append_assoc,
          List.cons_append]
      · exact List.cons_ne_nil _ _

theorem layoutFields_eq (depth : Nat) (fields : List (String × Expr)) :
    layoutFields depth fields =
      fields.flatMap fun field => indent depth ++ (layoutField depth field ++ [',', '\n']) := by
  induction fields with
  | nil => rfl
  | cons field fields ih =>
    rw [layoutFields, ih, List.flatMap_cons, layoutField]
    simp only [List.append_assoc, List.cons_append, List.nil_append]

theorem key_begins (key : String) : Begins (layoutKey key) := by
  unfold layoutKey
  split
  · rename_i bare
    obtain ⟨c, rest, text, start⟩ := name_begins bare
    exact ⟨c, rest, text, nameStart_not_stop start⟩
  · exact ⟨'"', _, rfl, by decide⟩

theorem quote_not_name {name : String} (isName : isIdentifier name = true) {text : List Char} :
    name.toList ++ rest ≠ '"' :: text := by
  obtain ⟨c, tail, form, start⟩ := name_begins isName
  rw [form]
  rintro ⟨⟩
  contradiction

theorem key_unique {key other : String}
    (same : layoutKey key ++ ':' :: rest = layoutKey other ++ ':' :: rest') :
    key = other ∧ rest = rest' := by
  unfold layoutKey at same
  have behind : key = other ∧ ':' :: rest = ':' :: rest' := by
    split at same
    · rename_i bare
      split at same
      · rename_i bare'
        exact name_unique bare bare' (ends_cons rfl) (ends_cons rfl) same
      · exact absurd same (quote_not_name bare)
    · split at same
      · rename_i bare'
        exact absurd same.symm (quote_not_name bare')
      · exact Quoted.encode_unique same
  exact ⟨behind.1, (List.cons.inj behind.2).2⟩

/-- An expression can be told by its text wherever it stands. -/
def Unambiguous (e : Expr) : Prop := ∀ depth, Told (layout depth) Legible e

theorem field_told {field : String × Expr} (unambiguous : field.2.Unambiguous) (depth : Nat) :
    Told (layoutField depth) (fun other => other.2.Legible) field := by
  intro other rest rest' legible stop stop' same
  simp only [layoutField, List.append_assoc, List.cons_append] at same
  obtain ⟨keys, behind⟩ := key_unique same
  obtain ⟨values, rests⟩ :=
    unambiguous depth other.2 rest rest' legible stop stop' (List.cons.inj behind).2
  exact ⟨Prod.ext keys values, rests⟩

theorem field_begins (field : String × Expr) (depth : Nat) : Begins (layoutField depth field) := by
  obtain ⟨c, rest, text, free⟩ := key_begins field.1
  rw [layoutField, text]
  exact ⟨c, _, rfl, free⟩

variable {fields others : List (String × Expr)}

theorem indent_succ (depth : Nat) : indent (depth + 1) = indent depth ++ [' ', ' '] := by
  rw [indent, indent, Nat.mul_succ, List.replicate_add]
  rfl

/-- Lines one level deeper end where a brace stands in the place of two spaces. -/
theorem layoutFields_unique (told : ∀ field ∈ fields, field.2.Unambiguous)
    (legible : ∀ field ∈ others, field.2.Legible)
    (same : layoutFields (depth + 1) fields ++ (indent depth ++ '\x7d' :: rest) =
      layoutFields (depth + 1) others ++ (indent depth ++ '\x7d' :: rest')) :
    fields = others ∧ rest = rest' := by
  rw [layoutFields_eq, layoutFields_eq] at same
  -- Without the indentation that all lines share, a field begins with a space and the end with a brace.
  induction fields generalizing others with
  | nil =>
    cases others with
    | nil => exact ⟨rfl, (List.cons.inj (List.append_cancel_left same)).2⟩
    | cons other others =>
      simp only [List.flatMap_nil, List.nil_append, List.flatMap_cons, indent_succ,
        List.append_assoc, List.append_cancel_left_eq] at same
      exact absurd (List.cons.inj same).1 (by decide)
  | cons field fields ih =>
    cases others with
    | nil =>
      simp only [List.flatMap_nil, List.nil_append, List.flatMap_cons, indent_succ,
        List.append_assoc, List.append_cancel_left_eq] at same
      exact absurd (List.cons.inj same).1 (by decide)
    | cons other others =>
      obtain ⟨first, toldRest⟩ := List.forall_mem_cons.mp told
      obtain ⟨legibleFirst, legibleRest⟩ := List.forall_mem_cons.mp legible
      simp only [List.flatMap_cons, List.append_assoc, List.append_cancel_left_eq] at same
      have comma (more : List Char) : Stops ([',', '\n'] ++ more) := by
        rintro c ⟨⟩
        decide
      obtain ⟨rfl, behind⟩ :=
        field_told first (depth + 1) other _ _ legibleFirst (comma _) (comma _) same
      obtain ⟨rfl, rests⟩ := ih toldRest legibleRest (List.append_cancel_left behind)
      exact ⟨rfl, rests⟩

theorem layoutMask_unique (readable : ∀ field ∈ fields, field.2.Legible)
    (told : ∀ field ∈ fields, field.2.Unambiguous) (legible : ∀ field ∈ others, field.2.Legible)
    (same : layoutMask depth fields ++ ' ' :: rest = layoutMask depth others ++ ' ' :: rest') :
    fields = others ∧ rest = rest' := by
  rw [layoutMask_eq, layoutMask_eq] at same
  exact commas_unique (fun field _ => field_begins field depth) (by decide) (by decide) readable
    (fun field member => field_told (told field member) depth) legible same

theorem layoutList_unique {es more : List Expr} {close : Char} (closes : close ∈ stops)
    (apart : close ≠ ',') (readable : ∀ e ∈ es, e.Legible) (told : ∀ e ∈ es, e.Unambiguous)
    (legible : ∀ e ∈ more, e.Legible)
    (same : layoutList depth es ++ close :: rest = layoutList depth more ++ close :: rest') :
    es = more ∧ rest = rest' := by
  have begins (e : Expr) (legible : e.Legible) : Begins (layout depth e) := by
    obtain ⟨c, tail, text, _, free⟩ := layout_begins depth legible
    exact ⟨c, tail, text, free⟩
  rw [layoutList_eq, layoutList_eq] at same
  exact commas_unique begins closes apart readable (fun e member => told e member depth) legible same

/-- What follows the brace that opens an object. -/
def layoutBody (depth : Nat) (fields : List (String × Expr)) : List Char :=
  if fields.isEmpty then ['\x7d']
  else if isMask fields then ' ' :: (layoutMask depth fields ++ [' ', '\x7d'])
  else '\n' :: (layoutFields (depth + 1) fields ++ (indent depth ++ ['\x7d']))

theorem layout_object (depth : Nat) (fields : List (String × Expr)) :
    layout depth (.object fields) = '\x7b' :: layoutBody depth fields := by
  rw [layout, layoutBody]
  split
  · rfl
  · split
    · rfl
    · rfl

/-- The three forms of an object differ behind the brace. -/
theorem layoutBody_unique (readable : ∀ field ∈ fields, field.2.Legible)
    (told : ∀ field ∈ fields, field.2.Unambiguous) (legible : ∀ field ∈ others, field.2.Legible)
    (same : layoutBody depth fields ++ rest = layoutBody depth others ++ rest') :
    fields = others ∧ rest = rest' := by
  unfold layoutBody at same
  by_cases empty : fields.isEmpty
  · rw [if_pos empty] at same
    split at same
    · rename_i empty'
      rw [List.isEmpty_iff.mp empty, List.isEmpty_iff.mp empty']
      exact ⟨rfl, (List.cons.inj same).2⟩
    · split at same
      · exact absurd (List.cons.inj same).1 (by decide)
      · exact absurd (List.cons.inj same).1 (by decide)
  · rw [if_neg empty] at same
    by_cases mask : isMask fields
    · rw [if_pos mask] at same
      split at same
      · exact absurd (List.cons.inj same).1 (by decide)
      · split at same
        · simp only [List.cons_append, List.append_assoc, List.cons.injEq, true_and] at same
          obtain ⟨rfl, behind⟩ := layoutMask_unique readable told legible same
          exact ⟨rfl, (List.cons.inj behind).2⟩
        · exact absurd (List.cons.inj same).1 (by decide)
    · rw [if_neg mask] at same
      split at same
      · exact absurd (List.cons.inj same).1 (by decide)
      · split at same
        · exact absurd (List.cons.inj same).1 (by decide)
        · simp only [List.cons_append, List.append_assoc, List.cons.injEq, true_and] at same
          exact layoutFields_unique told legible same

end Schemata.Expr
