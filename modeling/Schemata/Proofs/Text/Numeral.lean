import Mathlib.Data.List.TakeWhile
import Mathlib.Data.Rat.Defs
import Schemata.Text.Numeral

/-! The numbers that numerals stand for. The words for infinity and for no number stand for none. -/
namespace Schemata.Text

/-- The number with the sign that a text has in front. -/
def signed {α : Type} [Neg α] (cs : List Char) (n : α) : α := if cs.head? = some '-' then -n else n

/-- The power of ten behind the mark of an exponent. -/
def exponentValue (cs : List Char) : ℤ := signed cs (Nat.ofDigitChars 10 (dropSign cs) 0)

/-- The number that a decimal without a sign stands for. -/
def decimalValue (cs : List Char) : ℚ :=
  let whole : ℚ := Nat.ofDigitChars 10 (digits cs) 0
  match afterDigits cs with
  | '.' :: rest =>
    (whole + Nat.ofDigitChars 10 (digits rest) 0 / 10 ^ (digits rest).length) *
      10 ^ exponentValue ((afterDigits rest).drop 1)
  | rest => whole * 10 ^ exponentValue (rest.drop 1)

def numeralValue? (cs : List Char) : Option ℚ :=
  if isDecimal (dropSign cs) then some (signed cs (decimalValue (dropSign cs))) else none

variable {cs : List Char} {c : Char}

theorem digits_append_afterDigits (cs : List Char) : digits cs ++ afterDigits cs = cs :=
  List.takeWhile_append_dropWhile

theorem isDigit_of_mem_digits (member : c ∈ digits cs) : c.isDigit = true :=
  List.mem_takeWhile_imp member

theorem isDigit_bounds (digit : c.isDigit = true) : 48 ≤ c.toNat ∧ c.toNat ≤ 57 := by
  rw [Char.isDigit, Bool.and_eq_true, decide_eq_true_eq, decide_eq_true_eq] at digit
  exact digit

/-- The digits of an exponent are all that stands behind its sign. -/
theorem isExponent_cons (exponent : isExponent (c :: cs) = true) :
    (c = 'e' ∨ c = 'E') ∧ digits (dropSign cs) = dropSign cs ∧ dropSign cs ≠ [] := by
  simp only [isExponent, Bool.and_eq_true, Bool.or_eq_true, beq_iff_eq, Bool.not_eq_true',
    List.isEmpty_eq_false_iff, List.isEmpty_iff] at exponent
  obtain ⟨⟨marked, some⟩, last⟩ := exponent
  have whole := digits_append_afterDigits (dropSign cs)
  rw [last, List.append_nil] at whole
  exact ⟨marked, whole, whole ▸ some⟩

end Schemata.Text
