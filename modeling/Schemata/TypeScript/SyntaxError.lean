import Schemata.Text.Blank
import Schemata.TypeScript.Source

/-!
Syntax errors. A source that does not read is described by its cheapest repair: leaving out words in
a row, or putting in one that is missing. Where no single repair makes the source read, the error
shows the text that the failing statement begins with.
-/
namespace Schemata.TypeScript

inductive Fault where
  /-- A text that fits nowhere. -/
  | stray (text : String)
  /-- The kind of a word that has to be there. -/
  | missing (kind : String)
  deriving DecidableEq, Repr

structure SyntaxError where
  line : Nat
  fault : Fault
  deriving DecidableEq, Repr

namespace SyntaxError

open Grammar

def message (e : SyntaxError) : String :=
  "syntax error at line " ++ toString e.line ++ ": " ++
    match e.fault with
    | .stray text => text
    | .missing kind => "missing " ++ kind

def wordLength (cs : List Char) : Nat :=
  let name := nameLength cs
  if name ≠ 0 then name
  else
    match cs with
    | [] => 0
    | c :: rest =>
      let quoted :=
        if c == '"' || c == '\'' then (quotedLength c cs.length rest).map (· + 1) else none
      let number := match numberLength cs with
        | 0 => none
        | n => some n
      let operator := (operatorMarks.find? fun (text, _) => text.toList.isPrefixOf cs).map
        (·.1.length)
      (quoted <|> number <|> operator).getD 1

structure Word where
  start : Cursor
  length : Nat

namespace Word

def stop (w : Word) : Cursor := w.start.advance w.length

def text (w : Word) : List Char := w.start.rest.take w.length

end Word

/-- The words between two places, the last one first. -/
def wordsTo (stop : Cursor) : Nat → Cursor → List Word → List Word
  | 0, _, words => words
  | bound + 1, c, words =>
    let start := c.atWord
    if start.left ≤ stop.left then words
    else
      let word : Word := ⟨start, wordLength start.rest⟩
      wordsTo stop bound word.stop (word :: words)

/-- A source that failed to read, and where. -/
structure Attempt where
  elements : Bool
  text : List Char
  failure : Source.Failure

namespace Attempt

def before (a : Attempt) (c : Cursor) : List Char := a.text.take (a.text.length - c.left)

def reads (a : Attempt) (text : List Char) : Bool := (Source.read a.elements text).isOk

/-- Whether a text reads and a statement of its own could begin behind it on its last line. -/
def endsStatement (a : Attempt) (text : List Char) : Bool :=
  match Source.read a.elements (text ++ " type $end = $end".toList) with
  | .ok declarations =>
    (declarations.getLast?).any fun d => d.name == "$end" && !d.exported
  | .error _ => false

/-- Whether a source reads where `rest` follows a repair at the end of `front`. No semicolon may be
left out between them: a line break there ends nothing, and the end of the source has to be where a
statement could begin. -/
def readsOn (a : Attempt) (front rest : List Char) : Bool :=
  let behind := Cursor.atWord (.start rest)
  if behind.rest.isEmpty then a.endsStatement front else a.reads (front ++ ' ' :: behind.rest)

/-- The words from the start of the failing statement up to the word that the source fails at, the
last one first. -/
def words (a : Attempt) : List Word :=
  ⟨a.failure.far, wordLength a.failure.far.rest⟩ ::
    wordsTo a.failure.far a.text.length a.failure.statement []

/-- At most `bound` words behind a place, the last one first. -/
def wordsBehind : Nat → Cursor → List Word → List Word
  | 0, _, words => words
  | bound + 1, c, words =>
    let start := c.atWord
    if start.rest.isEmpty then words
    else
      let word : Word := ⟨start, wordLength start.rest⟩
      wordsBehind bound word.stop (word :: words)

/-- A change with which a source reads, and what it costs. -/
structure Repair where
  cost : Nat
  error : SyntaxError

def Repair.cheaper : Option Repair → Option Repair → Option Repair
  | some r, some other => some (if other.cost < r.cost then other else r)
  | none, other => other
  | r, none => r

/-- What leaving out some words costs: a fixed price, and then by word, by byte and by line. -/
def leavingCost (words : Nat) (span : String) (rows : Nat) : Nat :=
  500 + 100 * words + span.utf8ByteSize + 30 * rows

/-- What putting in a word costs: more than leaving out a word of nine letters. -/
def puttingCost : Nat := 610

/-- Leaves out words that stand in a row, the last one first. -/
def leaveOut? (a : Attempt) (words : List Word) : Option Repair :=
  match words, words.getLast? with
  | last :: _, some first =>
    if a.readsOn (a.before first.start) last.stop.rest then
      let span := first.start.textTo last.stop
      let line := Text.trim (span.takeWhile (· ≠ '\n'))
      some {
        cost := leavingCost words.length (String.ofList span) (last.stop.row - first.start.row)
        error := ⟨first.start.row + 1, .stray (String.ofList line)⟩ }
    else none
  | _, _ => none

/-- How many words in a row may be left out. -/
def spanLimit : Nat := 8

/-- The cheapest way to leave out words in a row, of which the last one is the first of `words` and
at least `least` are taken. -/
def leaveOutBefore? (a : Attempt) (least : Nat) (words : List Word) : Option Repair :=
  (List.range spanLimit).foldl (fun best more =>
    if least + more ≤ words.length then
      Repair.cheaper best (a.leaveOut? (words.take (least + more)))
    else best) none

/-- The cheapest way to leave out words in a row at the place of failure: the word there, those
right before it, and up to two behind it. -/
def leaveOutHere? (a : Attempt) : Option Repair :=
  match a.words with
  | [] => none
  | word :: earlier =>
    let behind := wordsBehind 2 word.stop []
    let upToWord := (List.range (behind.length + 1)).foldl (fun best n =>
      Repair.cheaper best
        (a.leaveOutBefore? (n + 1) ((behind.drop (behind.length - n)) ++ word :: earlier))) none
    Repair.cheaper upToWord (a.leaveOutBefore? 1 earlier)

/-- The kind of name that is missing behind a word, if the name ends a part of its own there. -/
def nameKind? (word : List Char) : Option String :=
  let word := String.ofList word
  if ["<", "class", "extends", "implements", "interface", "type"].contains word then
    some "type_identifier"
  else if ["const", "enum", "function", "import", "let", "var"].contains word then none
  else some (if word == "," || word == "." || word == "\x7b" then "property_identifier"
    else "identifier")

/-- What can be put in behind a word, with the kind that it is called. -/
def insertions (word : List Char) : List (String × String) :=
  [("keyof x", "type_identifier"), ("(x)", "identifier")] ++
    ((nameKind? word).map fun kind => ("x", kind)).toList ++
    ["\x7d", ")", ";", "]", ">"].map fun m => (m, m)

/-- Puts in a word behind the last one that was read. -/
def putIn? (a : Attempt) : Option Repair :=
  match a.words with
  | _ :: last :: _ =>
    let readsWith (text : String) : Bool :=
      a.readsOn (a.before last.stop ++ ' ' :: text.toList) last.stop.rest
    ((insertions last.text).find? fun (text, _) => readsWith text).map fun (_, kind) =>
      ⟨puttingCost, last.stop.row + 1, .missing kind⟩
  | _ => none

/-- The first line of the statement that fails. -/
def strayStatement (a : Attempt) : SyntaxError :=
  let line := a.failure.statement.rest.takeWhile (· ≠ '\n')
  ⟨a.failure.statement.row + 1, .stray (String.ofList (Text.trim line))⟩

/-- Whether a text begins a literal or a comment that does not end. -/
def isUnclosed (cs : List Char) : Bool :=
  match cs with
  | '/' :: '*' :: _ => true
  | c :: _ => (c == '"' || c == '\'' || c == '`') && wordLength cs = 1
  | [] => false

def error (a : Attempt) : SyntaxError :=
  if isUnclosed a.failure.far.rest then a.strayStatement
  else ((Repair.cheaper a.putIn? a.leaveOutHere?).map (·.error)).getD a.strayStatement

end Attempt

end SyntaxError

namespace Source

def parse (elements : Bool) (text : String) : Except SyntaxError (List Declaration) :=
  (read elements text.toList).mapError fun failure =>
    SyntaxError.Attempt.error ⟨elements, text.toList, failure⟩

end Source

end Schemata.TypeScript
