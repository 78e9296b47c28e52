import Schemata.TypeScript.Parse

/-!
The words of a source: names, keywords, marks, numbers and quoted texts. Which word is read depends
on what is asked for, because a slash may divide or begin a pattern, and `>>` may close two lists.
-/
namespace Schemata.TypeScript

open Parse

/-- Marks, which are part of no name. -/
def isMark (c : Char) : Bool := ":;`\"'@#.,|^&<=>+-*/\\%?!~()[]\x7b\x7d".toList.contains c

def isNamePart (c : Char) : Bool := 31 < c.toNat && !isSpace c && !isMark c

def isHexDigit (c : Char) : Bool :=
  c.isDigit || ('a' ≤ c && c ≤ 'f') || ('A' ≤ c && c ≤ 'F')

/-- The length of a Unicode escape in a name. -/
def escapeLength : List Char → Option Nat
  | '\\' :: 'u' :: '\x7b' :: rest =>
    let digits := rest.takeWhile isHexDigit
    if !digits.isEmpty && rest[digits.length]? == some '\x7d' then some (digits.length + 4)
    else none
  | '\\' :: 'u' :: a :: b :: c :: d :: _ =>
    if [a, b, c, d].all isHexDigit then some 6 else none
  | _ => none

/-- The length of the rest of a name. -/
def nameTail : Nat → List Char → Nat
  | 0, _ => 0
  | bound + 1, cs =>
    let plain := (cs.takeWhile isNamePart).length
    let after := cs.drop plain
    match escapeLength after with
    | some n => plain + n + nameTail bound (after.drop n)
    | none => plain

def nameLength (cs : List Char) : Nat :=
  match cs with
  | [] => 0
  | c :: rest =>
    if c.isDigit then 0
    else if isNamePart c then 1 + nameTail (rest.takeWhile (!isSpace ·)).length rest
    else
      match escapeLength cs with
      | some n => n + nameTail cs.length (cs.drop n)
      | none => 0

/-- Takes characters from a word's start and returns their text. -/
def takeText (start : Cursor) (length : Nat) : Parse String := do
  let stop := start.advance length
  moveTo stop
  pure (String.ofList (start.textTo stop))

/-- Any name, keywords included. -/
def anyName : Parse String := do
  let start ← word
  let length := nameLength start.rest
  if length = 0 then fail else takeText start length

/-- A name that is none of the keywords that can stand here. -/
def nameBut (keywords : List String) : Parse String := do
  let start ← word
  let name ← anyName
  if keywords.contains name then failAt start else pure name

/-- The name `name`. -/
def keyword (name : String) : Parse Unit := do
  let start ← word
  if (← anyName) == name then pure () else failAt start

def oneKeyword (names : List String) : Parse String := do
  let start ← word
  let name ← anyName
  if names.contains name then pure name else failAt start

/-- The mark `text`, whatever follows. -/
def mark (text : String) : Parse Unit := do
  let start ← word
  if text.toList.isPrefixOf start.rest then moveTo (start.advance text.length) else fail

/-- The mark `text` unless one of these characters follows. -/
def markBut (text : String) (followers : List Char) : Parse Unit := do
  mark text
  let c ← place
  if (c.rest.head?).any followers.contains then fail

/-- The first of some marks that stands here. -/
def oneMark (texts : List String) : Parse Unit := oneOf (texts.map mark)

def endOfText : Parse Unit := do
  let start ← word
  if start.rest.isEmpty then pure () else fail

/-- The length of digits that a single `_` may divide. -/
def digitsLength (isDigit : Char → Bool) : List Char → Nat
  | [] => 0
  | c :: rest =>
    if isDigit c then 1 + digitsLength isDigit rest
    else
      match rest with
      | d :: after => if c == '_' && isDigit d then 2 + digitsLength isDigit after else 0
      | [] => 0

/-- The length of digits of which the first is no `_`. -/
def digitRun (isDigit : Char → Bool) (cs : List Char) : Nat :=
  if (cs.head?).any isDigit then digitsLength isDigit cs else 0

def exponentLength : List Char → Nat
  | c :: rest =>
    if c == 'e' || c == 'E' then
      let sign := if rest.head? == some '+' || rest.head? == some '-' then 1 else 0
      let digits := digitRun Char.isDigit (rest.drop sign)
      if digits = 0 then 0 else 1 + sign + digits
    else 0
  | [] => 0

/-- The length of a number without a point in front. -/
def wholeLength (cs : List Char) : Nat :=
  let whole := digitRun Char.isDigit cs
  if whole = 0 then 0
  else
    match cs.drop whole with
    | '.' :: rest =>
      let fraction := digitRun Char.isDigit rest
      whole + 1 + fraction + exponentLength (rest.drop fraction)
    | 'n' :: _ => whole + 1
    | rest => whole + exponentLength rest

/-- The length of a number in a base with a mark of its own. -/
def basedLength (isDigit : Char → Bool) (cs : List Char) : Nat :=
  let digits := digitRun isDigit cs
  if digits = 0 then 1
  else if (cs.drop digits).head? == some 'n' then 3 + digits else 2 + digits

def numberLength (cs : List Char) : Nat :=
  match cs with
  | '0' :: 'x' :: rest => basedLength isHexDigit rest
  | '0' :: 'X' :: rest => basedLength isHexDigit rest
  | '0' :: 'b' :: rest => basedLength (fun c => c == '0' || c == '1') rest
  | '0' :: 'B' :: rest => basedLength (fun c => c == '0' || c == '1') rest
  | '0' :: 'o' :: rest => basedLength (fun c => '0' ≤ c && c ≤ '7') rest
  | '0' :: 'O' :: rest => basedLength (fun c => '0' ≤ c && c ≤ '7') rest
  | '.' :: rest =>
    let fraction := digitRun Char.isDigit rest
    if fraction = 0 then 0 else 1 + fraction + exponentLength (rest.drop fraction)
  | _ => wholeLength cs

def number : Parse String := do
  let start ← word
  let length := numberLength start.rest
  if length = 0 then fail else takeText start length

/-- The length of an escape in a quoted text, its backslash included. -/
def quotedEscapeLength : List Char → Option Nat
  | '\\' :: 'x' :: a :: b :: _ => if isHexDigit a && isHexDigit b then some 4 else none
  | '\\' :: 'u' :: rest => escapeLength ('\\' :: 'u' :: rest)
  | '\\' :: 'x' :: _ => none
  | '\\' :: '\r' :: '\n' :: _ => some 3
  | '\\' :: _ :: _ => some 2
  | _ => none

/-- The length of a quoted text behind its quote, up to and with the closing one. A line may end
in it only where blanks and the closing quote follow. -/
def quotedLength (quote : Char) : Nat → List Char → Option Nat
  | 0, _ => none
  | _ + 1, [] => none
  | bound + 1, c :: rest =>
    if c = quote then some 1
    else if c = '\\' then
      match quotedEscapeLength (c :: rest) with
      | some n => (quotedLength quote bound (rest.drop (n - 1))).map (· + n)
      | none => none
    else if c = '\n' ∨ c = '\r' then
      let blanks := (rest.takeWhile isSpace).length
      if (rest.drop blanks).head? = some quote then some (blanks + 2) else none
    else (quotedLength quote bound rest).map (· + 1)

/-- A text in single or double quotes, with its quotes. -/
def stringLiteral : Parse String := do
  let start ← word
  match start.rest with
  | c :: rest =>
    if c = '"' ∨ c = '\'' then
      match quotedLength c start.left rest with
      | some n => takeText start (n + 1)
      | none => fail
    else fail
  | [] => fail

/-- Takes a semicolon, or the place of one that is left out. -/
def semicolon (follow : Follow) : Parse Unit := do
  match (← place).impliedSemicolon? follow with
  | some c => moveTo c
  | none => mark ";"

/-- Takes the place of a semicolon that is left out, if there is one. -/
def skipImpliedSemicolon (follow : Follow) : Parse Unit := do
  match (← place).impliedSemicolon? follow with
  | some c => moveTo c
  | none => pure ()

def atImpliedSemicolon (follow : Follow) : Parse Bool := do
  pure ((← place).impliedSemicolon? follow).isSome

/-- Fails where a semicolon is left out. -/
def sameStatement (follow : Follow) : Parse Unit := do if ← atImpliedSemicolon follow then fail

end Schemata.TypeScript
