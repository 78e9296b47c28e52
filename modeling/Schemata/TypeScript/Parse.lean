import Schemata.TypeScript.Cursor

/-!
Parsers over a source. A parser either moves the place on or fails, and remembers the farthest
place at which any alternative failed, where a syntax error is looked for. Alternatives are tried
in order, each from the same place; repetition is bounded by the characters left, since every
round has to take one.
-/
namespace Schemata.TypeScript

structure ParseState where
  here : Cursor
  /-- The farthest place at which an alternative failed. -/
  far : Cursor
  deriving Inhabited

/-- A parser; a failure carries the farthest place reached. -/
abbrev Parse (α : Type) := StateT ParseState (Except Cursor) α

namespace Parse

variable {α β : Type}

def failAt (place : Cursor) : Parse α := fun s => .error (s.far.farther place)

/-- Fails at the next word. -/
def fail : Parse α := fun s => .error (s.far.farther s.here.atWord)

/-- The first parser, or the second one where the first fails. -/
def or (p q : Parse α) : Parse α := fun s =>
  match p s with
  | .ok result => .ok result
  | .error far => q { s with far := s.far.farther far }

def oneOf : List (Parse α) → Parse α
  | [] => fail
  | [p] => p
  | p :: ps => or p (oneOf ps)

def optional (p : Parse α) : Parse (Option α) := or (some <$> p) (pure none)

/-- Runs a parser if it succeeds. -/
def skip (p : Parse α) : Parse Unit := or (discard p) (pure ())

/-- Whether a parser succeeds here; it moves nothing. -/
def check (p : Parse α) : Parse Bool := fun s =>
  match p s with
  | .ok _ => .ok (true, s)
  | .error _ => .ok (false, s)

/-- Fails where another parser would succeed. -/
def notAhead (p : Parse α) : Parse Unit := do if ← check p then fail

def place : Parse Cursor := fun s => .ok (s.here, s)

def moveTo (c : Cursor) : Parse Unit := fun s => .ok ((), { s with here := c })

/-- Runs a parser and demands that it takes something. -/
def moving (p : Parse α) : Parse α := do
  let before ← place
  let a ← p
  let after ← place
  if after.left < before.left then pure a else fail

def manyWithin (p : Parse α) : Nat → Parse (List α)
  | 0 => pure []
  | bound + 1 => do
    match ← optional (moving p) with
    | some a => (a :: ·) <$> manyWithin p bound
    | none => pure []

/-- As many rounds of a parser as succeed. -/
def many (p : Parse α) : Parse (List α) := do manyWithin p (← place).left

def many1 (p : Parse α) : Parse (List α) := do
  let a ← p
  (a :: ·) <$> many p

def sepBy1 (item : Parse α) (separator : Parse β) : Parse (List α) := do
  let a ← item
  (a :: ·) <$> many (separator *> item)

def sepBy (item : Parse α) (separator : Parse β) : Parse (List α) :=
  or (sepBy1 item separator) (pure [])

/-- Moves to the next word and returns its place. -/
def word : Parse Cursor := do
  let start := (← place).atWord
  moveTo start
  pure start

end Parse

end Schemata.TypeScript
