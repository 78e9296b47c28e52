/-!
Why a text is no JSON value, and where. A place is kept as the number of bytes behind it, and
turned into a line and a column, both counted in bytes, against the whole text.
-/
namespace Schemata.Json

inductive Fault where
  | endInList
  | endInObject
  | endInString
  | endInValue
  | expectedColon
  | expectedCommaInList
  | expectedCommaInObject
  | expectedWord
  | expectedValue
  | invalidEscape
  | invalidNumber
  | numberOutOfRange
  | controlCharacter
  | keyNotString
  | loneSurrogate
  | trailingComma
  | trailingText
  | unfinishedSurrogatePair
  | tooDeep
  deriving DecidableEq, Repr

def Fault.message : Fault → String
  | endInList => "EOF while parsing a list"
  | endInObject => "EOF while parsing an object"
  | endInString => "EOF while parsing a string"
  | endInValue => "EOF while parsing a value"
  | expectedColon => "expected `:`"
  | expectedCommaInList => "expected `,` or `]`"
  | expectedCommaInObject => "expected `,` or `\x7d`"
  | expectedWord => "expected ident"
  | expectedValue => "expected value"
  | invalidEscape => "invalid escape"
  | invalidNumber => "invalid number"
  | numberOutOfRange => "number out of range"
  | controlCharacter => "control character (\\u0000-\\u001F) found while parsing a string"
  | keyNotString => "key must be a string"
  | loneSurrogate => "lone leading surrogate in hex escape"
  | trailingComma => "trailing comma"
  | trailingText => "trailing characters"
  | unfinishedSurrogatePair => "unexpected end of hex escape"
  | tooDeep => "recursion limit exceeded"

def byteLength (cs : List Char) : Nat := cs.foldl (fun n c => n + c.utf8Size) 0

structure Failure where
  fault : Fault
  /-- The bytes behind the place where reading failed. -/
  left : Nat
  deriving DecidableEq, Repr

namespace Failure

/-- A failure just in front of `rest`. -/
def before (fault : Fault) (rest : List Char) : Failure := ⟨fault, byteLength rest⟩

/-- A failure just behind the first byte of `rest`. -/
def behind (fault : Fault) (rest : List Char) : Failure := ⟨fault, byteLength rest - 1⟩

/-- The line and column behind `offset` bytes of a text, which stands at the given line and
column. -/
def locate (offset line column : Nat) : List Char → Nat × Nat
  | [] => (line, column)
  | c :: rest =>
    if offset < c.utf8Size then (line, column + offset)
    else if c = '\n' then locate (offset - 1) (line + 1) 0 rest
    else locate (offset - c.utf8Size) line (column + c.utf8Size) rest

def message (text : List Char) (f : Failure) : String :=
  let (line, column) := locate (byteLength text - f.left) 1 0 text
  f.fault.message ++ " at line " ++ toString line ++ " column " ++ toString column

end Failure

end Schemata.Json
