import Schemata.Json.Printer
import Schemata.Json.Reader
import Schemata.Proofs.Text.Delimited

/-! Reading back the scalars of a JSON text: a string as it is quoted, and a whole number of up to
64 bits as it is written in decimal digits. -/
namespace Schemata.Json

open Text

variable {rest : List Char}

/-! ## Strings -/

theorem hexValue?_hexDigit : ∀ n < 16, hexValue? (Quoted.hexDigit n) = some n := by decide

/-- Two digits behind two zeros give a control character. -/
theorem readUnicode_control {c : Char} (control : c.toNat < 32) (rest : List Char) :
    readUnicode ('0' :: '0' :: Quoted.hexDigit (c.toNat / 16) ::
      Quoted.hexDigit (c.toNat % 16) :: rest) = .ok (c, rest) := by
  have unit : readUnit ('0' :: '0' :: Quoted.hexDigit (c.toNat / 16) ::
      Quoted.hexDigit (c.toNat % 16) :: rest) = .ok (c.toNat, rest) := by
    have zero : hexValue? '0' = some 0 := by decide
    rw [readUnit, hexValue?_hexDigit _ (by omega), hexValue?_hexDigit _ (by omega), zero]
    dsimp only
    congr 2
    omega
  rw [readUnicode, unit]
  simp only [bind, Except.bind]
  rw [if_neg (by omega), if_pos (by omega), Char.ofNat_toNat]

theorem readChars_escape (fuel : Nat) (c : Char) (rest : List Char) :
    readChars (fuel + 1) (Quoted.escape c ++ rest) =
      (readChars fuel rest).map fun (cs, behind) => (c :: cs, behind) := by
  by_cases special : c ∈ Quoted.lettered
  · simp only [Quoted.lettered, List.mem_cons, List.not_mem_nil, or_false] at special
    rcases special with rfl | rfl | rfl | rfl | rfl | rfl | rfl <;> rfl
  · rw [Quoted.escape_plain special]
    split
    · rename_i control
      change (readUnicode ('0' :: '0' :: Quoted.hexDigit (c.toNat / 16) ::
        Quoted.hexDigit (c.toNat % 16) :: rest) >>= _) = _
      rw [readUnicode_control control]
      rfl
    · rename_i plain
      have quote : c ≠ '"' := by
        rintro rfl
        exact special (by decide)
      have backslash : c ≠ '\\' := by
        rintro rfl
        exact special (by decide)
      rw [List.singleton_append, readChars, if_neg quote, if_neg backslash, if_neg plain]
      rfl

theorem readChars_escapes {fuel : Nat} {cs : List Char} (enough : cs.length < fuel)
    (rest : List Char) :
    readChars fuel (cs.flatMap Quoted.escape ++ '"' :: rest) = .ok (cs, rest) := by
  induction cs generalizing fuel with
  | nil =>
    obtain ⟨fuel, rfl⟩ := Nat.exists_eq_add_one_of_ne_zero (Nat.ne_of_gt enough)
    rfl
  | cons c cs ih =>
    obtain ⟨fuel, rfl⟩ := Nat.exists_eq_add_one_of_ne_zero (Nat.ne_of_gt (Nat.zero_lt_of_lt enough))
    rw [List.flatMap_cons, List.append_assoc, readChars_escape,
      ih (Nat.lt_of_succ_lt_succ enough)]
    rfl

theorem length_le_escapes (cs : List Char) : cs.length ≤ (cs.flatMap Quoted.escape).length := by
  induction cs with
  | nil => exact Nat.le_refl _
  | cons c cs ih =>
    obtain ⟨d, tail, form, _⟩ := Quoted.escape_head c
    rw [List.flatMap_cons, form]
    simp only [List.length_cons, List.length_append]
    omega

/-- A quoted string is read back, whatever stands behind it. -/
theorem readString_escapes (s : String) (rest : List Char) :
    readString (s.toList.flatMap Quoted.escape ++ '"' :: rest) = .ok (s, rest) := by
  have enough := length_le_escapes s.toList
  rw [readString, readChars_escapes (by rw [List.length_append]; omega)]
  exact congrArg (fun read => Except.ok (read, rest)) String.ofList_toList

/-! ## Whole numbers -/

/-- The characters that may continue a numeral. -/
def continuesNumeral (c : Char) : Bool := c.isDigit || c == '.' || c == 'e' || c == 'E'

theorem natOfDigits_eq (cs : List Char) : natOfDigits cs = Nat.ofDigitChars 10 cs 0 :=
  Nat.ofDigitChars_eq_foldl.symm

theorem natOfDigits_toDigits (n : Nat) : natOfDigits (Nat.toDigits 10 n) = n :=
  (natOfDigits_eq _).trans Nat.ofDigitChars_ten_toDigits

theorem natOfDigits_le_append (front behind : List Char) :
    natOfDigits front ≤ natOfDigits (front ++ behind) := by
  have scaled : 0 < 10 ^ behind.length := Nat.pow_pos (by decide)
  rw [natOfDigits_eq, natOfDigits_eq, Nat.ofDigitChars_append,
    Nat.ofDigitChars_eq_ofDigitChars_zero (l := behind)]
  exact Nat.le_add_right_of_le (Nat.le_mul_of_pos_left _ scaled)

theorem fittingDigits_all {limit : Nat} {taken ds : List Char}
    (fits : natOfDigits (taken ++ ds) < limit) : fittingDigits limit taken ds = taken ++ ds := by
  induction ds generalizing taken with
  | nil => exact (List.append_nil taken).symm
  | cons d ds ih =>
    have whole : taken ++ d :: ds = taken ++ [d] ++ ds := by rw [List.append_assoc]; rfl
    rw [whole] at fits ⊢
    rw [fittingDigits, if_pos (Nat.lt_of_le_of_lt (natOfDigits_le_append _ ds) fits), ih fits]

theorem nearestDouble_le (n : Nat) : nearestDouble n ≤ 2 * n := by
  by_cases zero : n = 0
  · rw [zero]
    decide
  · have unit : Nat.pow 2 (n.log2 - 52) ≤ n :=
      calc Nat.pow 2 (n.log2 - 52) ≤ 2 ^ n.log2 :=
            Nat.pow_le_pow_right (by decide) (Nat.sub_le _ _)
        _ ≤ n := Nat.log2_self_le zero
    have kept := Nat.div_mul_le_self n (Nat.pow 2 (n.log2 - 52))
    unfold nearestDouble
    dsimp only
    split
    · rw [Nat.succ_mul]
      omega
    · omega

theorem not_isOutOfRange {digits : List Char} (fits : natOfDigits digits < UInt64.size) :
    isOutOfRange digits [] 0 = false := by
  have small : nearestDouble (natOfDigits digits) < doubleLimit :=
    calc nearestDouble (natOfDigits digits) ≤ 2 * natOfDigits digits := nearestDouble_le _
      _ < 2 * UInt64.size := Nat.mul_lt_mul_of_pos_left fits (by decide)
      _ ≤ doubleLimit := by decide +kernel
  have scale : nearestDouble (Nat.pow 10 0) = 1 := by decide
  have bounded : overflows (natOfDigits digits) 0 = false := by
    rw [overflows, scale, Nat.mul_one]
    exact decide_eq_false (Nat.not_le.mpr small)
  have kept : fittingDigits UInt64.size [] digits = digits := fittingDigits_all fits
  rw [isOutOfRange, significand, List.append_nil, kept]
  simp only [Int.sub_self, Int.add_zero, Int.toNat_zero, bounded]
  simp

theorem toDigits_head {n : Nat} (positive : n ≠ 0) :
    ∃ d ds, Nat.toDigits 10 n = d :: ds ∧ d ≠ '0' := by
  induction n using Nat.strongRecOn with
  | ind n ih =>
    by_cases small : n < 10
    · have digit : ∀ n < 10, n ≠ 0 → n.digitChar ≠ '0' := by decide
      exact ⟨n.digitChar, [], Nat.toDigits_of_lt_base small, digit n small positive⟩
    · obtain ⟨d, ds, front, notZero⟩ := ih (n / 10) (by omega) (by omega)
      refine ⟨d, ds ++ [(n % 10).digitChar], ?_, notZero⟩
      rw [Nat.toDigits_of_base_le (by decide) (Nat.not_lt.mp small), front]
      rfl

theorem isDigit_of_mem {n : Nat} {c : Char} (member : c ∈ Nat.toDigits 10 n) : c.isDigit = true :=
  Nat.isDigit_of_mem_toDigits (by decide) (by decide) member

theorem readWhole_digits (n : Nat) (ends : Ends Char.isDigit rest) :
    readWhole (Nat.toDigits 10 n ++ rest) = .ok (Nat.toDigits 10 n, rest) := by
  by_cases zero : n = 0
  · rw [zero, Nat.toDigits_zero]
    cases rest with
    | nil => rfl
    | cons c rest =>
      rw [List.singleton_append]
      unfold readWhole
      dsimp only
      rw [if_pos rfl, ends c rfl]
      rfl
  · obtain ⟨d, ds, form, notZero⟩ := toDigits_head zero
    have digits : ∀ c ∈ d :: ds, c.isDigit = true := fun c member => isDigit_of_mem (form ▸ member)
    have others : ∀ c ∈ ds, c.isDigit = true := fun c later =>
      digits c (List.mem_cons_of_mem _ later)
    have taken : digitsOf (ds ++ rest) = ds := takeWhile_run others ends
    have left : behindDigits (ds ++ rest) = rest := by
      have whole := List.takeWhile_append_dropWhile (p := Char.isDigit) (l := ds ++ rest)
      rw [show List.takeWhile Char.isDigit (ds ++ rest) = ds from taken] at whole
      exact List.append_cancel_left whole
    rw [form, List.cons_append]
    unfold readWhole
    dsimp only
    rw [if_neg notZero, if_pos (digits d List.mem_cons_self), taken, left]

/-- A whole number is read back in front of a text that does not continue it. -/
theorem readUnsigned_digits {n : Nat} (fits : n < UInt64.size)
    (ends : Ends continuesNumeral rest) :
    readUnsigned (Nat.toDigits 10 n ++ rest) (Nat.toDigits 10 n ++ rest) =
      .ok (.ofNat n, rest) := by
  have whole := readWhole_digits n (ends.mono fun c digit => by rw [continuesNumeral, digit]; rfl)
  have fraction : readFraction rest = .ok ([], rest) := by
    unfold readFraction
    split
    · cases ends '.' rfl
    · rfl
  have range : isOutOfRange (Nat.toDigits 10 n) [] 0 = false :=
    not_isOutOfRange ((natOfDigits_toDigits n).symm ▸ fits)
  rw [readUnsigned, whole]
  simp only [bind, Except.bind, fraction]
  split
  · cases ends 'e' rfl
  · cases ends 'E' rfl
  · have spelled : List.take ((Nat.toDigits 10 n ++ rest).length - rest.length)
        (Nat.toDigits 10 n ++ rest) = Nat.toDigits 10 n := by
      rw [List.length_append, Nat.add_sub_cancel, List.take_left]
    simp only [range, spelled]
    rw [if_neg Bool.false_ne_true, Value.ofNat, Nat.toString_eq_ofList_toDigits]

end Schemata.Json
