import Mathlib.Data.Nat.Digits.Defs
import Mathlib.Data.Option.NAry
import Schemata.Json.Reader
import Schemata.Proofs.Text.Numeral

/-! Number literals as the code of a module may write them, with the numbers that they stand for. A
literal is decimal, or it has one of the bases two, eight and sixteen and a mark for it; single
underscores may stand between digits. No further digit follows a zero in front of the point, because
such literals used to be octal. What ends in an `n` is no number but a big integer. -/
namespace Schemata.TypeScript

open Text

def digit? (base : Nat) (c : Char) : Option Nat := (Json.hexValue? c).filter (· < base)

/-- The digits of a number without the underscores between them. -/
def digits? (base : Nat) : List Char → Option (List Nat)
  | [] => none
  | [c] => (digit? base c).map fun d => [d]
  | c :: '_' :: rest => Option.map₂ (· :: ·) (digit? base c) (digits? base rest)
  | c :: rest => Option.map₂ (· :: ·) (digit? base c) (digits? base rest)

def natural? (base : Nat) (cs : List Char) : Option Nat :=
  (digits? base cs).map fun ds => Nat.ofDigits base ds.reverse

/-- What stands in front of a point. -/
def whole? (cs : List Char) : Option Nat :=
  if cs.head? = some '0' ∧ cs ≠ ['0'] then none else natural? 10 cs

/-- What stands behind a point. -/
def fraction? (cs : List Char) : Option ℚ :=
  (digits? 10 cs).map fun ds => ((Nat.ofDigits 10 ds.reverse : Nat) : ℚ) / 10 ^ ds.length

/-- The digits around a point, of which one side may be left out. -/
def pointed? (front behind : List Char) : Option ℚ :=
  if front.isEmpty then fraction? behind
  else if behind.isEmpty then (whole? front).map fun n : Nat => (n : ℚ)
  else Option.map₂ (fun (n : Nat) x => (n : ℚ) + x) (whole? front) (fraction? behind)

/-- The exponent behind its mark. -/
def exponent? (cs : List Char) : Option ℤ :=
  (natural? 10 (dropSign cs)).map fun n : Nat => signed cs (n : ℤ)

/-- What a number is scaled with, by an exponent or by none. -/
def scale? : List Char → Option ℚ
  | [] => some 1
  | c :: cs => if c = 'e' ∨ c = 'E' then (exponent? cs).map fun x => 10 ^ x else none

def isDigitPart (c : Char) : Bool := c.isDigit || c == '_'

def decimal? (cs : List Char) : Option ℚ :=
  let front := cs.takeWhile isDigitPart
  match cs.dropWhile isDigitPart with
  | '.' :: rest => Option.map₂ (· * ·) (pointed? front (rest.takeWhile isDigitPart))
      (scale? (rest.dropWhile isDigitPart))
  | rest => Option.map₂ (fun (n : Nat) x => (n : ℚ) * x) (whole? front) (scale? rest)

/-- The base that a mark behind a zero stands for. -/
def markedBase? : Char → Option Nat
  | 'x' | 'X' => some 16
  | 'o' | 'O' => some 8
  | 'b' | 'B' => some 2
  | _ => none

def literal? : List Char → Option ℚ
  | '0' :: c :: cs =>
    match markedBase? c with
    | some base => (natural? base cs).map fun n : Nat => (n : ℚ)
    | none => decimal? ('0' :: c :: cs)
  | cs => decimal? cs

/-- The number that a literal with a sign at choice stands for. -/
def signedLiteral? (cs : List Char) : Option ℚ := (literal? (dropSign cs)).map (signed cs)

/-- Whether a digit follows a zero in front. -/
def isZeroLed : List Char → Bool
  | '0' :: c :: _ => c.isDigit
  | _ => false

variable {cs ds : List Char} {c : Char}

/-! ## Digits -/

/-- The value of a decimal digit. -/
def decimalDigit (c : Char) : Nat := c.toNat - 48

theorem digit?_of_isDigit (digit : c.isDigit = true) : digit? 10 c = some (decimalDigit c) := by
  have bounds := isDigit_bounds digit
  have small : c.toNat - 48 < 10 := by omega
  rw [digit?, Json.hexValue?, if_pos digit, Option.filter_some, decide_eq_true small]
  rfl

theorem digits?_of_isDigit (nonempty : ds ≠ []) (all : ∀ c ∈ ds, c.isDigit = true) :
    digits? 10 ds = some (ds.map decimalDigit) := by
  fun_induction digits? 10 ds with
  | case1 => contradiction
  | case2 c =>
    rw [digit?_of_isDigit (all c (List.mem_singleton_self c))]
    rfl
  | case3 c rest =>
    have underscore := all '_' (by simp)
    contradiction
  | case4 c rest last bare ih =>
    obtain ⟨digit, others⟩ := List.forall_mem_cons.mp all
    rw [digit?_of_isDigit digit, ih (fun none => last none) others]
    rfl

theorem ofDigits_decimalDigit (ds : List Char) :
    Nat.ofDigits 10 (ds.map decimalDigit).reverse = Nat.ofDigitChars 10 ds 0 := by
  rw [Nat.ofDigits_eq_foldr, List.foldr_reverse, List.foldl_map, Nat.ofDigitChars_eq_foldl]
  congr 1
  funext n c
  exact Nat.add_comm _ _

theorem natural?_of_isDigit (nonempty : ds ≠ []) (all : ∀ c ∈ ds, c.isDigit = true) :
    natural? 10 ds = some (Nat.ofDigitChars 10 ds 0) := by
  rw [natural?, digits?_of_isDigit nonempty all, Option.map_some, ofDigits_decimalDigit]

theorem fraction?_of_isDigit (nonempty : ds ≠ []) (all : ∀ c ∈ ds, c.isDigit = true) :
    fraction? ds = some ((Nat.ofDigitChars 10 ds 0 : ℚ) / 10 ^ ds.length) := by
  rw [fraction?, digits?_of_isDigit nonempty all, Option.map_some, List.length_map,
    ofDigits_decimalDigit]

/-! ## Decimals -/

theorem isZeroLed_iff : isZeroLed cs = true ↔ (digits cs).head? = some '0' ∧ digits cs ≠ ['0'] := by
  cases cs with
  | nil => simp [isZeroLed, digits]
  | cons c rest =>
    by_cases zero : c = '0'
    · subst zero
      cases rest with
      | nil => decide
      | cons d rest =>
        have opened : digits ('0' :: d :: rest) = '0' :: digits (d :: rest) :=
          List.takeWhile_cons_of_pos rfl
        rw [opened, isZeroLed, digits, List.takeWhile_cons]
        cases d.isDigit <;> simp
    · have other : isZeroLed (c :: rest) = false := by
        simp [isZeroLed, zero]
      rw [other, digits, List.takeWhile_cons]
      cases c.isDigit <;> simp [zero]

theorem whole?_digits (nonempty : digits cs ≠ []) : whole? (digits cs) =
    if isZeroLed cs then none else some (Nat.ofDigitChars 10 (digits cs) 0) := by
  rw [whole?, natural?_of_isDigit nonempty fun _ => isDigit_of_mem_digits]
  exact if_congr isZeroLed_iff.symm rfl rfl

/-- The digits around a point are read as they are, but for those behind a zero. -/
theorem pointed?_digits {rest : List Char} (nonempty : digits cs ≠ [] ∨ digits rest ≠ []) :
    pointed? (digits cs) (digits rest) = if isZeroLed cs then none else
      some ((Nat.ofDigitChars 10 (digits cs) 0 : ℚ) +
        Nat.ofDigitChars 10 (digits rest) 0 / 10 ^ (digits rest).length) := by
  have behind (some_digit : digits rest ≠ []) :=
    fraction?_of_isDigit some_digit fun _ => isDigit_of_mem_digits
  unfold pointed?
  by_cases front : digits cs = []
  · have zero : isZeroLed cs = false := by
      rw [Bool.eq_false_iff, Ne, isZeroLed_iff, front]
      simp
    rw [front, zero, behind (nonempty.resolve_left (not_not_intro front))]
    simp
  · rw [if_neg (by simpa using front), whole?_digits front]
    by_cases last : digits rest = []
    · rw [last]
      cases isZeroLed cs <;> simp
    · rw [if_neg (by simpa using last), behind last]
      cases isZeroLed cs <;> simp

theorem isDigitPart_digits (bare : (afterDigits cs).head? ≠ some '_') :
    cs.takeWhile isDigitPart = digits cs ∧ cs.dropWhile isDigitPart = afterDigits cs := by
  induction cs with
  | nil => exact ⟨rfl, rfl⟩
  | cons c rest ih =>
    cases digit : c.isDigit with
    | true =>
      have part : isDigitPart c = true := by rw [isDigitPart, digit, Bool.true_or]
      rw [afterDigits, List.dropWhile_cons_of_pos digit] at bare ⊢
      rw [digits, List.takeWhile_cons_of_pos digit, List.takeWhile_cons_of_pos part,
        List.dropWhile_cons_of_pos part]
      exact ⟨congrArg (c :: ·) (ih bare).1, (ih bare).2⟩
    | false =>
      have stops : ¬ c.isDigit = true := Bool.eq_false_iff.mp digit
      rw [afterDigits, List.dropWhile_cons_of_neg stops] at bare ⊢
      have part : ¬ isDigitPart c = true := by
        rw [isDigitPart, digit, Bool.false_or, beq_iff_eq]
        rintro rfl
        exact bare rfl
      rw [digits, List.takeWhile_cons_of_neg stops, List.takeWhile_cons_of_neg part,
        List.dropWhile_cons_of_neg part]
      exact ⟨rfl, rfl⟩

theorem exponent?_eq (all : digits (dropSign cs) = dropSign cs) (nonempty : dropSign cs ≠ []) :
    exponent? cs = some (exponentValue cs) := by
  rw [exponent?, natural?_of_isDigit nonempty fun c member => isDigit_of_mem_digits (all ▸ member)]
  rfl

theorem scale?_of_isExponent (exponent : isExponent cs = true) :
    scale? cs = some (10 ^ exponentValue (cs.drop 1)) := by
  cases cs with
  | nil => simp [scale?, exponentValue, dropSign, signed]
  | cons c rest =>
    obtain ⟨marked, all, nonempty⟩ := isExponent_cons exponent
    rw [scale?, if_pos marked, exponent?_eq all nonempty]
    rfl

/-- A mark of an exponent is no underscore. -/
theorem isExponent_head (exponent : isExponent cs = true) : cs.head? ≠ some '_' := by
  cases cs with
  | nil => simp
  | cons c rest =>
    rintro ⟨⟩
    exact absurd (isExponent_cons exponent).1 (by decide)

theorem decimal?_of_isDecimal (accepted : isDecimal cs = true) :
    decimal? cs = if isZeroLed cs then none else some (decimalValue cs) := by
  unfold isDecimal at accepted
  split at accepted
  · rename_i rest pointed
    obtain ⟨nonempty, exponent⟩ := Bool.and_eq_true_iff.mp accepted
    have some_digit : digits cs ≠ [] ∨ digits rest ≠ [] := by simpa using nonempty
    have bare : (afterDigits cs).head? ≠ some '_' := by simp [pointed]
    obtain ⟨front, after⟩ := isDigitPart_digits bare
    obtain ⟨behind, last⟩ := isDigitPart_digits (isExponent_head exponent)
    have read : decimal? cs = Option.map₂ (· * ·) (pointed? (digits cs) (digits rest))
        (scale? (afterDigits rest)) := by
      rw [decimal?, front, after, pointed, ← behind, ← last]
      rfl
    have value : decimalValue cs = (Nat.ofDigitChars 10 (digits cs) 0 +
        Nat.ofDigitChars 10 (digits rest) 0 / 10 ^ (digits rest).length) *
          10 ^ exponentValue ((afterDigits rest).drop 1) := by
      rw [decimalValue, pointed]
      rfl
    rw [read, value, pointed?_digits some_digit, scale?_of_isExponent exponent]
    cases isZeroLed cs <;> rfl
  · rename_i whole
    obtain ⟨nonempty, exponent⟩ := Bool.and_eq_true_iff.mp accepted
    have some_digit : digits cs ≠ [] := by simpa using nonempty
    obtain ⟨front, after⟩ := isDigitPart_digits (isExponent_head exponent)
    have value : decimalValue cs =
        Nat.ofDigitChars 10 (digits cs) 0 * 10 ^ exponentValue ((afterDigits cs).drop 1) := by
      unfold decimalValue
      split
      · rename_i pointed
        exact absurd pointed (whole _)
      · rfl
    have read : decimal? cs = Option.map₂ (fun (n : Nat) x => (n : ℚ) * x) (whole? (digits cs))
        (scale? (afterDigits cs)) := by
      rw [decimal?, front, after]
      split
      · rename_i pointed
        exact absurd pointed (whole _)
      · rfl
    rw [read, value, whole?_digits some_digit, scale?_of_isExponent exponent]
    cases isZeroLed cs <;> rfl

/-- What follows a zero in a decimal is another digit, a point or an exponent. -/
theorem markedBase?_of_isDecimal (accepted : isDecimal ('0' :: c :: cs) = true) :
    markedBase? c = none := by
  have follows (letter : c.isDigit = false) (bare : c ≠ '.') : c = 'e' ∨ c = 'E' := by
    have after : afterDigits ('0' :: c :: cs) = c :: cs := by
      rw [afterDigits, List.dropWhile_cons_of_pos rfl,
        List.dropWhile_cons_of_neg (Bool.eq_false_iff.mp letter)]
    unfold isDecimal at accepted
    rw [after] at accepted
    split at accepted
    · rename_i pointed
      exact absurd (List.cons.inj pointed).1 bare
    · exact (isExponent_cons (Bool.and_eq_true_iff.mp accepted).2).1
  unfold markedBase?
  split
  case h_7 => rfl
  all_goals exact absurd (follows (by decide) (by decide)) (by decide)

theorem literal?_of_isDecimal (accepted : isDecimal cs = true) :
    literal? cs = if isZeroLed cs then none else some (decimalValue cs) := by
  rw [← decimal?_of_isDecimal accepted]
  unfold literal?
  split
  · rw [markedBase?_of_isDecimal accepted]
  · rfl

example : literal? "1.5e2".toList = some 150 := by decide +kernel

example : literal? "010".toList = none := by decide +kernel

/-- A numeral is a literal for the same number exactly if it is no word, and if no digit follows a zero
in front. -/
theorem signedLiteral?_eq_numeralValue?_iff :
    (∃ v, signedLiteral? cs = some v ∧ numeralValue? cs = some v) ↔
      isDecimal (dropSign cs) = true ∧ isZeroLed (dropSign cs) = false := by
  constructor
  · rintro ⟨v, literal, value⟩
    have accepted : isDecimal (dropSign cs) = true := by
      by_contra other
      rw [numeralValue?, if_neg other] at value
      contradiction
    refine ⟨accepted, ?_⟩
    rw [signedLiteral?, literal?_of_isDecimal accepted] at literal
    by_contra zero
    rw [if_pos (by simpa using zero)] at literal
    contradiction
  · rintro ⟨accepted, other⟩
    refine ⟨signed cs (decimalValue (dropSign cs)), ?_, if_pos accepted⟩
    rw [signedLiteral?, literal?_of_isDecimal accepted, other]
    rfl

end Schemata.TypeScript
