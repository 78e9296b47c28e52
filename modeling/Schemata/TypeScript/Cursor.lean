/-!
A place in a source, and what may stand between words: blanks and comments. Semicolons that a
source leaves out are found here too, because they depend on the lines and comments that follow.
-/
namespace Schemata.TypeScript

/-- A place in a source: the text behind it, its length, and the row of the place. -/
structure Cursor where
  rest : List Char
  left : Nat
  row : Nat := 0
  deriving Repr, Inhabited

namespace Cursor

def start (text : List Char) : Cursor := ⟨text, text.length, 0⟩

/-- Takes characters one by one. -/
def advance (c : Cursor) : Nat → Cursor
  | 0 => c
  | n + 1 =>
    match c.rest with
    | [] => c
    | d :: rest => advance ⟨rest, c.left - 1, if d = '\n' then c.row + 1 else c.row⟩ n

/-- The text between two places. -/
def textTo (c d : Cursor) : List Char := c.rest.take (c.left - d.left)

def farther (c d : Cursor) : Cursor := if d.left < c.left then d else c

end Cursor

/-- Blanks that separate words. -/
def isSpace (c : Char) : Bool :=
  let n := c.toNat
  (9 ≤ n && n ≤ 13) || n == 0x20 || n == 0xA0 || n == 0x1680 || (0x2000 ≤ n && n ≤ 0x200B) ||
    n == 0x2028 || n == 0x2029 || n == 0x202F || n == 0x205F || n == 0x2060 || n == 0x3000 ||
    n == 0xFEFF

/-- Blanks that a semicolon may be left out in. -/
def isPlainSpace (c : Char) : Bool := let n := c.toNat; (9 ≤ n && n ≤ 13) || n == 0x20

def endsLineComment (c : Char) : Bool :=
  c == '\n' || c == '\r' || c.toNat == 0x2028 || c.toNat == 0x2029

/-- The length of a text up to and with the first `*/`. -/
def blockLength : List Char → Option Nat
  | [] => none
  | '*' :: '/' :: _ => some 2
  | _ :: rest => (blockLength rest).map (· + 1)

def commentLength : List Char → Option Nat
  | '/' :: '/' :: rest => some (2 + (rest.takeWhile (!endsLineComment ·)).length)
  | '/' :: '*' :: rest => (blockLength rest).map (· + 2)
  | _ => none

/-- A comment with the rows of its first and last character. -/
structure Comment where
  text : String
  firstRow : Nat
  lastRow : Nat
  deriving DecidableEq, Repr, Inhabited

namespace Comment

/-- The documentation that a comment right above `row` gives. -/
def doc? (row : Nat) (c : Comment) : Option String :=
  if row ≤ c.lastRow + 1 ∧ "/**".toList.isPrefixOf c.text.toList then some c.text else none

end Comment

namespace Cursor

def skipSpaces (c : Cursor) : Cursor := c.advance (c.rest.takeWhile isSpace).length

/-- The comment at a place behind blanks, and the place behind it. -/
def comment? (c : Cursor) : Option (Comment × Cursor) :=
  let start := c.skipSpaces
  (commentLength start.rest).map fun n =>
    let stop := start.advance n
    (⟨String.ofList (start.textTo stop), start.row, stop.row⟩, stop)

/-- Skips blanks and at most `bound` comments. -/
def skipUpTo : Nat → Cursor → List Comment × Cursor
  | 0, c => ([], c.skipSpaces)
  | bound + 1, c =>
    match c.comment? with
    | some (comment, rest) =>
      let (comments, stop) := skipUpTo bound rest
      (comment :: comments, stop)
    | none => ([], c.skipSpaces)

/-- The comments in front of the next word, and the place where it starts. -/
def skipTrivia (c : Cursor) : List Comment × Cursor :=
  match c.rest with
  | d :: _ => if isSpace d || d == '/' then c.skipUpTo c.left else ([], c)
  | [] => ([], c)

def atWord (c : Cursor) : Cursor := c.skipTrivia.2

end Cursor

/-- What may follow: whether a semicolon may be left out there, and how the text is read if none
is. -/
inductive Follow where
  /-- No semicolon can stand here. -/
  | closed
  /-- A semicolon can stand here, and no operator of an expression. -/
  | type
  /-- As for a type; a body may follow as well. -/
  | signature
  /-- A semicolon or an operator can stand here. -/
  | expression
  deriving DecidableEq, Repr

/-- Skips blanks and comments; a slash that begins no comment is an obstacle. -/
def skipToWord : Nat → List Char → Option (List Char)
  | 0, cs => some cs
  | bound + 1, cs =>
    match cs.dropWhile isPlainSpace with
    | '/' :: '/' :: rest => skipToWord bound (rest.dropWhile (· ≠ '\n'))
    | '/' :: '*' :: rest => skipToWord bound (rest.drop ((blockLength rest).getD rest.length))
    | '/' :: _ => none
    | rest => some rest

/-- Whether a word that begins with `i` is an operator: `in` or `instanceof`. -/
def startsOperatorWord (cs : List Char) : Bool :=
  let continued (rest : List Char) : Bool := (rest.head?).any (·.isAlpha)
  match cs with
  | 'i' :: 'n' :: rest =>
    !continued rest ||
      ("stanceof".toList.isPrefixOf rest && !continued (rest.drop "stanceof".length))
  | _ => false

/-- Whether the word at the start of a later line does not continue what stands above it. -/
def startsStatement (follow : Follow) (cs : List Char) : Bool :=
  match cs with
  | [] => true
  | '+' :: rest => rest.head? == some '+'
  | '-' :: rest => rest.head? == some '-'
  | '!' :: rest => rest.head? != some '='
  | c :: _ =>
    if "`,.;*%><=?^|&/:".toList.contains c then false
    else if c == '\x7b' then follow != .signature
    else if c == '(' || c == '[' then follow != .expression
    else !startsOperatorWord cs

/-- Whether a semicolon is left out right here: at the end, in front of a closing brace, or at the
end of a line behind which a statement starts. -/
def endsHere (follow : Follow) : List Char → Bool
  | [] => true
  | c :: rest =>
    if c == '\x7d' then
      (rest.dropWhile isPlainSpace).head? != some ':' || follow == .expression
    else if c == '\n' then (skipToWord rest.length rest).any (startsStatement follow)
    else isPlainSpace c && endsHere follow rest

namespace Cursor

/-- The place of a semicolon that is left out, behind at most `bound` comments. -/
def impliedSemicolonWithin (follow : Follow) : Nat → Cursor → Option Cursor
  | 0, c => if endsHere follow c.rest then some c else none
  | bound + 1, c =>
    if endsHere follow c.rest then some c
    else
      match c.comment? with
      | some (_, rest) => impliedSemicolonWithin follow bound rest
      | none => none

/-- The place of a semicolon that is left out, if one can be. Comments in front of it belong to
what it ends. -/
def impliedSemicolon? (follow : Follow) (c : Cursor) : Option Cursor :=
  if follow = .closed then none else impliedSemicolonWithin follow c.left c

end Cursor

end Schemata.TypeScript
