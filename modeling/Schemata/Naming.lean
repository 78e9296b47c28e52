import Schemata.Text.Casing

/-!
Names of validators. A type's name is cut into words, joined in camel case, and set between the
affixes of the scheme. Words end at separators, where a capital follows a small letter or a
digit, and before the last capital of a run that a small letter follows.
-/
namespace Schemata.Naming

open Text

def isSeparator (c : Char) : Bool := c == '_' || c == '-' || c == '$' || c == ' '

/-- Whether a word ends in front of `c`, which follows `before` and is followed by `next`. -/
def breaksBefore (before c : Char) (next : Option Char) : Bool :=
  isUpper c && (isLower before || before.isDigit || (isUpper before && next.any isLower))

/-- Closes a word unless it is empty. -/
def flush (word : List Char) (words : List (List Char)) : List (List Char) :=
  if word.isEmpty then words else word :: words

/-- Cuts a name into words; `word` is the open one and `before` the character in front. -/
def wordsFrom (word : List Char) (before : Option Char) : List Char → List (List Char)
  | [] => flush word []
  | c :: rest =>
    if isSeparator c then flush word (wordsFrom [] (some c) rest)
    else if !word.isEmpty && before.any (breaksBefore · c rest.head?) then
      word :: wordsFrom [c] (some c) rest
    else wordsFrom (word ++ [c]) (some c) rest

def words (name : List Char) : List (List Char) := wordsFrom [] none name

/-- The first word in small letters, each later one with a capital. -/
def joinWords : List (List Char) → List Char
  | [] => []
  | first :: rest => toLower first ++ rest.flatMap fun word => capitalize (toLower word)

def camel (name : List Char) : List Char := joinWords (words name)

def camelCase (name : String) : String := String.ofList (camel name.toList)

/-- The affixes that validator names are set between. -/
structure Scheme where
  before : String := ""
  after : String := "Schema"
  deriving DecidableEq, Repr, Inhabited

namespace Scheme

/-- The validator's name for a type: with something in front, the camel-cased name keeps a
capital. -/
def name (scheme : Scheme) (type : String) : String :=
  if scheme.before.isEmpty then camelCase type ++ scheme.after
  else scheme.before ++ String.ofList (capitalize (camel type.toList)) ++ scheme.after

instance : CoeFun Scheme fun _ => String → String := ⟨Scheme.name⟩

end Scheme

/-- The scheme that is used when none is chosen. -/
def standard : Scheme := {}

end Schemata.Naming
