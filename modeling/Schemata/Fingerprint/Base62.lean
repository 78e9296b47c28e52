/-!
Words in base 62, digits before capitals before small letters. Digits are split off a word from its
end until nothing is left of it; zeros in front fill the text to eleven characters.
-/
namespace Schemata.Fingerprint.Base62

def width : Nat := 11

/-- The digits by their values. -/
def alphabet : List Char :=
  "0123456789ABCDEFGHIJKLMNOPQRSTUVWXYZabcdefghijklmnopqrstuvwxyz".toList

/-- The digit of a value below 62. -/
def digit (value : Nat) : Char := alphabet.getD value '0'

theorem toNat_pos {word : UInt64} (rest : word ≠ 0) : 0 < word.toNat :=
  Nat.pos_of_ne_zero fun zero => rest (UInt64.toNat_inj.mp zero)

/-- What a word leaves behind its last digit is smaller. -/
theorem toNat_div_lt {word : UInt64} (rest : word ≠ 0) : (word / 62).toNat < word.toNat := by
  rw [UInt64.toNat_div]
  exact Nat.div_lt_self (toNat_pos rest) (by decide)

/-- The digits of a word, the last one first; zero has none. -/
def digits (word : UInt64) : List Char :=
  if rest : word = 0 then [] else digit (word % 62).toNat :: digits (word / 62)
termination_by word.toNat
decreasing_by exact toNat_div_lt rest

def encode (word : UInt64) : List Char := ((digits word).rightpad width '0').reverse

end Schemata.Fingerprint.Base62
