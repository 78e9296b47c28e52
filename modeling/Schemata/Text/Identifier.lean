/-!
Bare names: what may be written as a property key or after a dot without quotes.
-/
namespace Schemata.Text

/-- An ASCII letter, `_` or `$`. -/
def isNameStart (c : Char) : Bool := c.isAlpha || c == '_' || c == '$'

/-- An ASCII letter or digit, `_` or `$`. -/
def isNamePart (c : Char) : Bool := isNameStart c || c.isDigit

def isName : List Char → Bool
  | [] => false
  | c :: rest => isNameStart c && rest.all isNamePart

def isIdentifier (s : String) : Bool := isName s.toList

end Schemata.Text
