import Mathlib.Data.List.Basic
import Schemata.TypeScript.Grammar.Expressions

/-! Regular expression literals. Between the slashes of a literal stands a body: each slash in it is
escaped or in a class, each class is closed, and each backslash escapes a character. A slash means
the same with a backslash in front as without. -/
namespace Schemata.TypeScript

open Grammar (regexLength)

/-- Whether a class is open behind a character that is not escaped. -/
def opensClass (inClass : Bool) (c : Char) : Bool := if inClass then c != ']' else c == '['

/-- Whether the closing slash of a literal may follow a text, given whether the text begins within a
class. -/
def closesRegex (inClass : Bool) : List Char → Bool
  | [] => !inClass
  | ['\\'] => false
  | '\\' :: c :: rest => !endsLineComment c && closesRegex inClass rest
  | c :: rest =>
    !endsLineComment c && (inClass || c != '/') && closesRegex (opensClass inClass c) rest

/-- Whether a text is the body of a literal. With no body, or a star in front, it would be a
comment. -/
def isRegexBody (body : List Char) : Bool := body.head?.any (· != '*') && closesRegex false body

def regexLiteral (body : List Char) : List Char := '/' :: (body ++ ['/'])

/-- A pattern without the backslashes in front of slashes. -/
def bareSlashes : List Char → List Char
  | '\\' :: '/' :: rest => '/' :: bareSlashes rest
  | '\\' :: c :: rest => '\\' :: c :: bareSlashes rest
  | c :: rest => c :: bareSlashes rest
  | [] => []

/-- The two differ only in which slashes are escaped. -/
def SamePattern (body pattern : List Char) : Prop := bareSlashes body = bareSlashes pattern

variable {body pattern : List Char}

theorem regexLiteral_inj : regexLiteral body = regexLiteral pattern ↔ body = pattern := by
  simp [regexLiteral]

theorem isRegexBody_slash (rest : List Char) : isRegexBody ('/' :: rest) = false := by
  simp [isRegexBody, closesRegex]

theorem ne_newline {c : Char} (within : (!endsLineComment c) = true) : c ≠ '\n' := by
  rintro rfl
  exact absurd within (by decide)

theorem regexLength_cons {inClass : Bool} {c : Char} (plain : c ≠ '\\') (within : c ≠ '\n')
    (inside : (inClass || c != '/') = true) (rest : List Char) :
    regexLength inClass (c :: rest) = (regexLength (opensClass inClass c) rest).map (· + 1) := by
  by_cases opening : c = '['
  · subst opening
    cases inClass <;> rfl
  · by_cases closing : c = ']'
    · subst closing
      cases inClass <;> rfl
    · by_cases slash : c = '/'
      · subst slash
        cases inClass with
        | true => rfl
        | false => contradiction
      · have same : opensClass inClass c = inClass := by
          cases inClass <;> simp [opensClass, opening, closing]
        rw [same, regexLength]
        all_goals simp_all

/-- A literal ends with its closing slash, whatever follows. -/
theorem regexLength_body {inClass : Bool} (closes : closesRegex inClass body = true)
    (rest : List Char) : regexLength inClass (body ++ '/' :: rest) = some (body.length + 1) := by
  fun_induction closesRegex inClass body with
  | case1 inClass =>
    obtain rfl : inClass = false := by simpa using closes
    rfl
  | case2 => contradiction
  | case3 inClass c body ih =>
    obtain ⟨within, further⟩ := Bool.and_eq_true_iff.mp closes
    rw [List.cons_append, List.cons_append, regexLength, if_neg (by simpa using ne_newline within),
      ih further]
    rfl
  | case4 inClass c body last escapes ih =>
    obtain ⟨⟨within, inside⟩, further⟩ := by simpa only [Bool.and_eq_true] using closes
    have plain : c ≠ '\\' := by
      rintro rfl
      cases body with
      | nil => exact last rfl rfl
      | cons c rest => exact escapes c rest rfl rfl
    rw [List.cons_append, regexLength_cons plain (ne_newline within) inside, ih further]
    rfl

theorem count_bareSlashes (pattern : List Char) :
    (bareSlashes pattern).count '/' = pattern.count '/' := by
  fun_induction bareSlashes pattern with
  | case1 rest ih => simp [ih]
  | case2 c rest other ih => simp only [List.count_cons, ih]
  | case3 c rest bare escape ih => simp only [List.count_cons, ih]
  | case4 => rfl

theorem SamePattern.count_slashes (same : SamePattern body pattern) :
    body.count '/' = pattern.count '/' := by
  rw [← count_bareSlashes body, same, count_bareSlashes]

end Schemata.TypeScript
