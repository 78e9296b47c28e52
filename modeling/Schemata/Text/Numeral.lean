/-!
Numerals as tags may write them: an optional sign, then digits with at most one point and at
least one digit, then an optional exponent; or a word for infinity or for no number, in any case.
-/
namespace Schemata.Text

def digits (cs : List Char) : List Char := cs.takeWhile Char.isDigit

def afterDigits (cs : List Char) : List Char := cs.dropWhile Char.isDigit

/-- A text without a sign in front. -/
def dropSign : List Char → List Char
  | '+' :: rest => rest
  | '-' :: rest => rest
  | cs => cs

/-- Nothing, or an `e` with a sign at choice and at least one digit. -/
def isExponent : List Char → Bool
  | [] => true
  | c :: rest =>
    (c == 'e' || c == 'E') && !(digits (dropSign rest)).isEmpty &&
      (afterDigits (dropSign rest)).isEmpty

def isDecimal (cs : List Char) : Bool :=
  match afterDigits cs with
  | '.' :: rest =>
    (!(digits cs).isEmpty || !(digits rest).isEmpty) && isExponent (afterDigits rest)
  | rest => !(digits cs).isEmpty && isExponent rest

def numberWords : List (List Char) := ["inf".toList, "infinity".toList, "nan".toList]

def isNumeral (cs : List Char) : Bool :=
  isDecimal (dropSign cs) || numberWords.contains ((dropSign cs).map Char.toLower)

end Schemata.Text
