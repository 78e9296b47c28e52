import Schemata.Text.Identifier
import Schemata.Text.Quoted

/-! Where a text ends. A name or a numeral ends in front of the first character that cannot continue
it, a quoted text behind the first quote that is not escaped; so none of them depends on what is
written behind it. -/
namespace Schemata.Text

/-- A text that does not continue a run of `inside` characters. -/
def Ends (inside : Char → Bool) (rest : List Char) : Prop := ∀ c ∈ rest.head?, inside c = false

variable {inside : Char → Bool} {a b rest rest' : List Char}

theorem ends_cons {c : Char} (outside : inside c = false) : Ends inside (c :: rest) := by
  rintro _ ⟨⟩
  exact outside

theorem Ends.mono {more : Char → Bool} (ends : Ends more rest)
    (within : ∀ c, inside c = true → more c = true) : Ends inside rest :=
  fun c first => Bool.eq_false_iff.mpr fun found =>
    absurd (within c found) (Bool.eq_false_iff.mp (ends c first))

theorem takeWhile_run (all : ∀ c ∈ a, inside c = true) (ends : Ends inside rest) :
    (a ++ rest).takeWhile inside = a := by
  rw [List.takeWhile_append_of_pos all]
  cases rest with
  | nil => exact List.append_nil a
  | cons c rest =>
    rw [List.takeWhile_cons_of_neg (Bool.eq_false_iff.mp (ends c rfl)), List.append_nil]

/-- A run is told from every other one by where it ends. -/
theorem run_unique (first : ∀ c ∈ a, inside c = true) (second : ∀ c ∈ b, inside c = true)
    (ends : Ends inside rest) (ends' : Ends inside rest') (same : a ++ rest = b ++ rest') :
    a = b ∧ rest = rest' := by
  have runs := congrArg (List.takeWhile inside) same
  rw [takeWhile_run first ends, takeWhile_run second ends'] at runs
  subst runs
  exact ⟨rfl, List.append_cancel_left same⟩

theorem isName_parts {cs : List Char} (name : isName cs = true) : ∀ c ∈ cs, isNamePart c = true := by
  cases cs with
  | nil => contradiction
  | cons first rest =>
    obtain ⟨start, parts⟩ := Bool.and_eq_true_iff.mp name
    intro c member
    rcases List.mem_cons.mp member with rfl | later
    · exact Bool.or_eq_true_iff.mpr (.inl start)
    · exact List.all_eq_true.mp parts c later

theorem name_unique {s t : String} (first : isIdentifier s = true) (second : isIdentifier t = true)
    (ends : Ends isNamePart rest) (ends' : Ends isNamePart rest')
    (same : s.toList ++ rest = t.toList ++ rest') : s = t ∧ rest = rest' := by
  obtain ⟨names, rests⟩ := run_unique (isName_parts first) (isName_parts second) ends ends' same
  exact ⟨String.toList_inj.mp names, rests⟩

namespace Quoted

/-! ## Quoted text -/

def hexValue (c : Char) : Nat := if c.isDigit then c.toNat - '0'.toNat else c.toNat - 'a'.toNat + 10

/-- The first character of a quoted text, and the text behind it. -/
def unescape : List Char → Option (Char × List Char)
  | '\\' :: 'b' :: rest => some ('\x08', rest)
  | '\\' :: 'f' :: rest => some ('\x0c', rest)
  | '\\' :: 'n' :: rest => some ('\n', rest)
  | '\\' :: 'r' :: rest => some ('\r', rest)
  | '\\' :: 't' :: rest => some ('\t', rest)
  | '\\' :: 'u' :: '0' :: '0' :: a :: b :: rest =>
    some (Char.ofNat (16 * hexValue a + hexValue b), rest)
  | '\\' :: c :: rest => some (c, rest)
  | c :: rest => some (c, rest)
  | [] => none

theorem hexValue_hexDigit : ∀ n < 16, hexValue (hexDigit n) = n := by decide

/-- The characters that are escaped by a letter or by themselves. -/
def lettered : List Char := ['"', '\\', '\x08', '\x0c', '\n', '\r', '\t']

theorem escape_plain {c : Char} (plain : c ∉ lettered) : escape c =
    if c.toNat < 32 then
      ['\\', 'u', '0', '0', hexDigit (c.toNat / 16), hexDigit (c.toNat % 16)]
    else [c] := by
  simp only [lettered, List.mem_cons, List.not_mem_nil, or_false, not_or] at plain
  obtain ⟨quote, backslash, backspace, feed, line, carriage, tab⟩ := plain
  rw [escape, if_neg quote, if_neg backslash, if_neg backspace, if_neg feed, if_neg line,
    if_neg carriage, if_neg tab]

/-- Line breaks are escaped. -/
theorem line_encode (cs : List Char) : '\n' ∉ encode cs := by
  have digit : ∀ n < 16, '\n' ≠ hexDigit n := by decide
  have escaped (c : Char) : '\n' ∉ escape c := by
    by_cases special : c ∈ lettered
    · simp only [lettered, List.mem_cons, List.not_mem_nil, or_false] at special
      rcases special with rfl | rfl | rfl | rfl | rfl | rfl | rfl <;> decide
    · rw [escape_plain special]
      split
      · rename_i control
        have high := digit (c.toNat / 16) (by omega)
        have low := digit (c.toNat % 16) (by omega)
        simp [high, low]
      · refine fun member => special ?_
        rw [← List.mem_singleton.mp member]
        decide
  simp [encode, escaped]

theorem unescape_escape (c : Char) (rest : List Char) :
    unescape (escape c ++ rest) = some (c, rest) := by
  by_cases special : c ∈ lettered
  · simp only [lettered, List.mem_cons, List.not_mem_nil, or_false] at special
    rcases special with rfl | rfl | rfl | rfl | rfl | rfl | rfl <;> rfl
  · rw [escape_plain special]
    split
    · rename_i control
      have digits : 16 * hexValue (hexDigit (c.toNat / 16)) + hexValue (hexDigit (c.toNat % 16)) =
          c.toNat := by
        rw [hexValue_hexDigit _ (by omega), hexValue_hexDigit _ (by omega)]
        omega
      simp only [List.cons_append, List.nil_append, unescape, digits, Char.ofNat_toNat]
    -- Every other character stands for itself, since only a backslash starts an escape.
    · have backslash : c ≠ '\\' := by
        rintro rfl
        exact special (by decide)
      rw [List.singleton_append]
      unfold unescape
      split <;> simp_all

/-- An escape does not begin like the end of a quoted text. -/
theorem escape_head (c : Char) : ∃ d tail, escape c = d :: tail ∧ d ≠ '"' := by
  by_cases special : c ∈ lettered
  · simp only [lettered, List.mem_cons, List.not_mem_nil, or_false] at special
    rcases special with rfl | rfl | rfl | rfl | rfl | rfl | rfl <;> exact ⟨_, _, rfl, by decide⟩
  · rw [escape_plain special]
    split
    · exact ⟨_, _, rfl, by decide⟩
    · refine ⟨c, [], rfl, ?_⟩
      rintro rfl
      exact special (by decide)

theorem escapes_unique (same : a.flatMap escape ++ '"' :: rest = b.flatMap escape ++ '"' :: rest') :
    a = b ∧ rest = rest' := by
  induction a generalizing b with
  | nil =>
    cases b with
    | nil => exact ⟨rfl, (List.cons.inj same).2⟩
    | cons c more =>
      obtain ⟨d, tail, form, differs⟩ := escape_head c
      rw [List.flatMap_cons, form] at same
      exact absurd (List.cons.inj same).1.symm differs
  | cons c rest ih =>
    cases b with
    | nil =>
      obtain ⟨d, tail, form, differs⟩ := escape_head c
      rw [List.flatMap_cons, form] at same
      exact absurd (List.cons.inj same).1 differs
    | cons d more =>
      rw [List.flatMap_cons, List.flatMap_cons, List.append_assoc, List.append_assoc] at same
      have read := congrArg unescape same
      rw [unescape_escape, unescape_escape] at read
      obtain ⟨rfl, others⟩ := Prod.mk.inj (Option.some.inj read)
      obtain ⟨rfl, rests⟩ := ih others
      exact ⟨rfl, rests⟩

theorem encode_unique {s t : String}
    (same : encode s.toList ++ rest = encode t.toList ++ rest') : s = t ∧ rest = rest' := by
  simp only [encode, List.cons_append, List.append_assoc, List.cons.injEq, true_and] at same
  obtain ⟨texts, rests⟩ := escapes_unique same
  exact ⟨String.toList_inj.mp texts, rests⟩

end Quoted

end Schemata.Text
