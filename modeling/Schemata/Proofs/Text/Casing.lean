import Mathlib
import Schemata.Proofs.Text.Numeral
import Schemata.Text.Casing

/-! Letter case of ASCII texts. There the case of a character is changed by itself and to one
character, so lowering a text lowers each of its characters, and forgets which were capitals. -/
namespace Schemata.Text

open Casing

def IsAscii (cs : List Char) : Prop := ∀ c ∈ cs, isAscii c = true

instance (cs : List Char) : Decidable (IsAscii cs) :=
  decidable_of_iff (cs.all isAscii = true) List.all_eq_true

variable {c : Char} {cs : List Char}

theorem isUpper_bounds (upper : c.isUpper = true) : 65 ≤ c.toNat ∧ c.toNat ≤ 90 := by
  simp only [Char.isUpper, decide_eq_true_eq] at upper
  exact upper

theorem isLower_bounds (lower : c.isLower = true) : 97 ≤ c.toNat ∧ c.toNat ≤ 122 := by
  simp only [Char.isLower, Bool.and_eq_true, decide_eq_true_eq] at lower
  exact lower

theorem isAlpha_bounds (alpha : c.isAlpha = true) : 65 ≤ c.toNat ∧ c.toNat ≤ 122 := by
  rcases Bool.or_eq_true_iff.mp alpha with upper | lower
  · have := isUpper_bounds upper
    omega
  · have := isLower_bounds lower
    omega

theorem toNat_toLower (upper : c.isUpper = true) : c.toLower.toNat = c.toNat + 32 := by
  obtain ⟨low, high⟩ := isUpper_bounds upper
  have valid : (c.toNat + 32).isValidChar := .inl (by omega)
  rw [Char.toLower_eq_of_isUpper upper, Char.toNat_ofNat, if_pos valid]

@[simp]
theorem isAscii_toLower (c : Char) : isAscii c.toLower = isAscii c := by
  by_cases upper : c.isUpper = true
  · obtain ⟨low, high⟩ := isUpper_bounds upper
    have small : c.toNat + 32 < 128 ∧ c.toNat < 128 := by omega
    simp [isAscii, toNat_toLower upper, small]
  · rw [Char.toLower_eq_of_not_isUpper upper]

@[simp]
theorem isDigit_toLower (c : Char) : c.toLower.isDigit = c.isDigit := by
  by_cases upper : c.isUpper = true
  · obtain ⟨low, high⟩ := isUpper_bounds upper
    have lowered := toNat_toLower upper
    rw [Bool.eq_iff_iff]
    constructor <;> intro digit <;> have := isDigit_bounds digit <;> omega
  · rw [Char.toLower_eq_of_not_isUpper upper]

theorem isAscii_map_toLower : IsAscii (cs.map Char.toLower) ↔ IsAscii cs := by
  simp [IsAscii]

/-- The sigma, which is lowered by what stands around it, is not ASCII. -/
theorem toLower_ascii (ascii : IsAscii cs) : toLower cs = cs.map Char.toLower := by
  have lowered (before : List Char) : lowerFrom before cs = cs.map Char.toLower := by
    induction cs generalizing before with
    | nil => rfl
    | cons c cs ih =>
      obtain ⟨first, rest⟩ := List.forall_mem_cons.mp ascii
      have other : c ≠ 'Σ' := by
        rintro rfl
        contradiction
      rw [lowerFrom, if_neg other, lowerChar, if_pos first, ih rest, List.map_cons,
        List.singleton_append]
  exact lowered []

theorem map_toLower_capitalize (ascii : IsAscii cs) :
    (capitalize cs).map Char.toLower = cs.map Char.toLower := by
  cases cs with
  | nil => rfl
  | cons c cs =>
    have first := ascii c List.mem_cons_self
    simp [capitalize, upperChar, first]

end Schemata.Text
