import Schemata.Json.Failure
import Schemata.Json.Value

/-!
Reading JSON text. Values may be nested to a fixed depth. Each reader returns what it read and the
text behind it; loops over items are bounded by the length of the text, each item taking at least
one character.
-/
namespace Schemata.Json

/-- Arrays and objects may be nested less deep than this. -/
def depthLimit : Nat := 128

def isSpace (c : Char) : Bool := c == ' ' || c == '\n' || c == '\t' || c == '\r'

def skipSpaces (cs : List Char) : List Char := cs.dropWhile isSpace

def hexValue? (c : Char) : Option Nat :=
  if c.isDigit then some (c.toNat - 48)
  else if 'a' ≤ c ∧ c ≤ 'f' then some (c.toNat - 87)
  else if 'A' ≤ c ∧ c ≤ 'F' then some (c.toNat - 55)
  else none

/-- The unit that four hexadecimal digits stand for. -/
def readUnit : List Char → Except Failure (Nat × List Char)
  | cs@(a :: b :: c :: d :: rest) =>
    match hexValue? a, hexValue? b, hexValue? c, hexValue? d with
    | some a, some b, some c, some d => .ok (((a * 16 + b) * 16 + c) * 16 + d, rest)
    | _, _, _, _ => .error ⟨.invalidEscape, byteLength cs - 4⟩
  | cs =>
    if 4 ≤ byteLength cs then .error ⟨.invalidEscape, byteLength cs - 4⟩
    else .error ⟨.endInString, 0⟩

/-- Takes the character `c`, which the second half of a surrogate pair needs next. -/
def expectInPair (c : Char) : List Char → Except Failure (List Char)
  | [] => .error ⟨.endInString, 0⟩
  | d :: rest => if d = c then .ok rest else .error (.behind .unfinishedSurrogatePair (d :: rest))

/-- The character of a `u` escape: one unit, or a pair of surrogates. -/
def readUnicode (cs : List Char) : Except Failure (Char × List Char) := do
  let (unit, rest) ← readUnit cs
  if 0xDC00 ≤ unit ∧ unit ≤ 0xDFFF then .error (.before .loneSurrogate rest)
  else if unit < 0xD800 ∨ 0xDBFF < unit then .ok (Char.ofNat unit, rest)
  else
    let rest ← expectInPair '\\' rest
    let rest ← expectInPair 'u' rest
    let (low, rest) ← readUnit rest
    if low < 0xDC00 ∨ 0xDFFF < low then .error (.before .loneSurrogate rest)
    else .ok (Char.ofNat ((unit - 0xD800) * 0x400 + (low - 0xDC00) + 0x10000), rest)

/-- The character of an escape, behind its backslash. -/
def readEscape : List Char → Except Failure (Char × List Char)
  | [] => .error ⟨.endInString, 0⟩
  | '"' :: rest => .ok ('"', rest)
  | '\\' :: rest => .ok ('\\', rest)
  | '/' :: rest => .ok ('/', rest)
  | 'b' :: rest => .ok ('\x08', rest)
  | 'f' :: rest => .ok ('\x0c', rest)
  | 'n' :: rest => .ok ('\n', rest)
  | 'r' :: rest => .ok ('\r', rest)
  | 't' :: rest => .ok ('\t', rest)
  | 'u' :: rest => readUnicode rest
  | c :: rest => .error ⟨.invalidEscape, byteLength (c :: rest) - 1⟩

/-- The characters of a string, behind its opening quote. -/
def readChars : Nat → List Char → Except Failure (List Char × List Char)
  | 0, rest => .error (.before .endInString rest)
  | _ + 1, [] => .error ⟨.endInString, 0⟩
  | fuel + 1, c :: rest =>
    if c = '"' then .ok ([], rest)
    else if c = '\\' then do
      let (d, rest) ← readEscape rest
      let (ds, rest) ← readChars fuel rest
      .ok (d :: ds, rest)
    else if c.toNat < 32 then .error (.before .controlCharacter rest)
    else do
      let (ds, rest) ← readChars fuel rest
      .ok (c :: ds, rest)

def readString (cs : List Char) : Except Failure (String × List Char) := do
  let (chars, rest) ← readChars (cs.length + 1) cs
  .ok (String.ofList chars, rest)

/-- The word `word`, whose first letter has been read. -/
def readWord (value : Value) : List Char → List Char → Except Failure (Value × List Char)
  | [], rest => .ok (value, rest)
  | _ :: _, [] => .error ⟨.endInValue, 0⟩
  | w :: word, c :: rest =>
    if c = w then readWord value word rest else .error (.before .expectedWord rest)

def natOfDigits (cs : List Char) : Nat := cs.foldl (fun n c => 10 * n + (c.toNat - 48)) 0

/-- The double nearest to a number, of two the one with an even significand; its size is not
bounded. -/
def nearestDouble (n : Nat) : Nat :=
  let unit := Nat.pow 2 (n.log2 - 52)
  let kept := n / unit
  let dropped := 2 * (n % unit)
  (if unit < dropped ∨ unit = dropped ∧ kept % 2 = 1 then kept + 1 else kept) * unit

/-- The least number that is nearer to the first power of two beyond the doubles than to any of
them. -/
def doubleLimit : Nat := Nat.pow 2 1024 - Nat.pow 2 970

/-- Whether a decimal number is too large for a double. Both factors are doubles themselves. -/
def overflows (significand exponent : Nat) : Bool :=
  doubleLimit ≤ nearestDouble significand * nearestDouble (Nat.pow 10 exponent)

/-- The longest start of a list of digits, behind those `taken`, whose number is below `limit`. -/
def fittingDigits (limit : Nat) (taken : List Char) : List Char → List Char
  | [] => taken
  | d :: ds =>
    if natOfDigits (taken ++ [d]) < limit then fittingDigits limit (taken ++ [d]) ds else taken

/-- The significand of a number and how far its point stands to the right: digits that do not fit
into 64 bits are dropped. -/
def significand (whole fraction : List Char) : Nat × Int :=
  let kept := fittingDigits UInt64.size [] (whole ++ fraction)
  (natOfDigits kept, (whole.length : Int) - kept.length)

/-- Whether a number with this exponent is out of range. -/
def isOutOfRange (whole fraction : List Char) (exponent : Int) : Bool :=
  let (digits, shift) := significand whole fraction
  let power := shift + exponent
  digits ≠ 0 && 0 ≤ power && (308 < power || overflows digits power.toNat)

def isZero (whole fraction : List Char) : Bool := (significand whole fraction).1 == 0

def digitsOf (cs : List Char) : List Char := cs.takeWhile Char.isDigit

def behindDigits (cs : List Char) : List Char := cs.dropWhile Char.isDigit

/-- An exponent is read as a signed 32-bit number. -/
def exponentLimit : Nat := UInt32.size / 2

/-- The exponent of a number behind its `e`, and the text behind its digits. An exponent that is
too large is out of range as soon as a digit shows it, unless the number is tiny or zero. -/
def readExponent (isZero : Bool) (cs : List Char) : Except Failure (Int × List Char) :=
  let (negative, digits) :=
    match cs with
    | '+' :: rest => (false, rest)
    | '-' :: rest => (true, rest)
    | _ => (false, cs)
  match digits with
  | [] => .error ⟨.endInValue, 0⟩
  | d :: rest =>
    if d.isDigit then
      let read := digitsOf digits
      let kept := fittingDigits exponentLimit [] read
      if kept.length < read.length && !negative && !isZero then
        .error (.before .numberOutOfRange (digits.drop (kept.length + 1)))
      else
        let n : Int := natOfDigits kept
        .ok (if negative then -n else n, behindDigits digits)
    else .error (.before .invalidNumber rest)

def readFraction : List Char → Except Failure (List Char × List Char)
  | '.' :: rest =>
    match rest with
    | [] => .error ⟨.endInValue, 0⟩
    | d :: _ =>
      if d.isDigit then .ok (digitsOf rest, behindDigits rest)
      else .error (.behind .invalidNumber rest)
  | cs => .ok ([], cs)

/-- The whole part of a number: a zero, or digits that begin with none. -/
def readWhole : List Char → Except Failure (List Char × List Char)
  | [] => .error ⟨.endInValue, 0⟩
  | c :: rest =>
    if c = '0' then
      match rest with
      | d :: _ => if d.isDigit then .error (.behind .invalidNumber rest) else .ok ([c], rest)
      | [] => .ok ([c], rest)
    else if c.isDigit then .ok (c :: digitsOf rest, behindDigits rest)
    else .error (.before .invalidNumber rest)

/-- A number without its sign; `spelling` is the text from its start on. -/
def readUnsigned (spelling cs : List Char) : Except Failure (Value × List Char) := do
  let (whole, rest) ← readWhole cs
  let (fraction, rest) ← readFraction rest
  let (exponent, rest) ←
    match rest with
    | 'e' :: digits => readExponent (isZero whole fraction) digits
    | 'E' :: digits => readExponent (isZero whole fraction) digits
    | _ => .ok ((0 : Int), rest)
  if isOutOfRange whole fraction exponent then .error (.before .numberOutOfRange rest)
  else .ok (.number (String.ofList (spelling.take (spelling.length - rest.length))), rest)

/-- Reads items up to the closing bracket; `first` tells whether one may come without a comma. -/
def readItems (item : List Char → Except Failure (Value × List Char)) :
    Nat → Bool → List Char → Except Failure (List Value × List Char)
  | 0, _, cs => .error (.before .endInList cs)
  | fuel + 1, first, cs => do
    let cs := skipSpaces cs
    match cs with
    | [] => .error ⟨.endInList, 0⟩
    | c :: rest =>
      if c = ']' then .ok ([], rest)
      else
        let cs ←
          if first then .ok cs
          else if c = ',' then
            match skipSpaces rest with
            | [] => .error ⟨.endInValue, 0⟩
            | ']' :: after => .error (.behind .trailingComma (']' :: after))
            | next => .ok next
          else .error (.behind .expectedCommaInList cs)
        let (v, rest) ← item cs
        let (vs, rest) ← readItems item fuel false rest
        .ok (v :: vs, rest)

def readColon (cs : List Char) : Except Failure (List Char) :=
  match skipSpaces cs with
  | [] => .error ⟨.endInObject, 0⟩
  | ':' :: rest => .ok rest
  | rest => .error (.behind .expectedColon rest)

/-- Reads members up to the closing brace. -/
def readMembers (item : List Char → Except Failure (Value × List Char)) :
    Nat → Bool → List Char → Except Failure ((List (String × Value)) × List Char)
  | 0, _, cs => .error (.before .endInObject cs)
  | fuel + 1, first, cs => do
    let cs := skipSpaces cs
    match cs with
    | [] => .error ⟨.endInObject, 0⟩
    | c :: rest =>
      if c = '}' then .ok ([], rest)
      else
        let cs ←
          if first then .ok cs
          else if c = ',' then
            match skipSpaces rest with
            | [] => .error ⟨.endInValue, 0⟩
            | '}' :: after => .error (.behind .trailingComma ('}' :: after))
            | next => .ok next
          else .error (.behind .expectedCommaInObject cs)
        match cs with
        | '"' :: rest =>
          let (key, rest) ← readString rest
          let rest ← readColon rest
          let (v, rest) ← item rest
          let (vs, rest) ← readMembers item fuel false rest
          .ok ((key, v) :: vs, rest)
        | cs => .error (.behind .keyNotString cs)

/-- Reads a value that may hold arrays and objects less than `depth` deep. -/
def readValue : Nat → List Char → Except Failure (Value × List Char)
  | 0, cs => .error (.behind .tooDeep cs)
  | depth + 1, cs =>
    let cs := skipSpaces cs
    match cs with
    | [] => .error ⟨.endInValue, 0⟩
    | c :: rest =>
      if c = 'n' then readWord .null "ull".toList rest
      else if c = 't' then readWord (.bool true) "rue".toList rest
      else if c = 'f' then readWord (.bool false) "alse".toList rest
      else if c = '-' then readUnsigned cs rest
      else if c.isDigit then readUnsigned cs cs
      else if c = '"' then do
        let (s, rest) ← readString rest
        .ok (.string s, rest)
      else if c = '[' then
        if depth = 0 then .error (.behind .tooDeep cs)
        else do
          let (vs, rest) ← readItems (readValue depth) (rest.length + 1) true rest
          .ok (.array vs, rest)
      else if c = '{' then
        if depth = 0 then .error (.behind .tooDeep cs)
        else do
          let (ms, rest) ← readMembers (readValue depth) (rest.length + 1) true rest
          .ok (.object ms, rest)
      else .error (.behind .expectedValue cs)

/-- Refuses anything but blanks. -/
def checkEnd (cs : List Char) : Except Failure Unit :=
  match skipSpaces cs with
  | [] => .ok ()
  | rest => .error (.behind .trailingText rest)

def read (text : List Char) : Except Failure Value := do
  let (v, rest) ← readValue depthLimit text
  checkEnd rest
  .ok v

end Schemata.Json
