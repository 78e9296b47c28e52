/-!
Glob patterns over names: `?` and `*`, character classes, groups of alternatives, `**` between
slashes, and the backslash that makes the next character plain. `Pattern.parse` gives the tokens of
a pattern, or the first reason why it has none.
-/
namespace Schemata.Glob

inductive Token where
  | literal (c : Char)
  /-- Any one byte. -/
  | one
  /-- Any bytes. -/
  | many
  /-- A `**` in front: nothing, or directories up to a slash. -/
  | anyFront
  /-- A `**` at the end: a slash and what follows. -/
  | anyEnd
  /-- A `**` between slashes: one slash, or directories between two. -/
  | anyMiddle
  /-- One byte within the ranges, or outside them all. -/
  | oneOf (negated : Bool) (ranges : List (Char × Char))
  | alternatives (branches : List (List Token))
  deriving Repr, Inhabited

inductive PatternError where
  | unclosedClass
  | invalidRange (first last : Char)
  | unopenedGroup
  | unclosedGroup
  | danglingEscape
  deriving DecidableEq, Repr

def PatternError.message : PatternError → String
  | unclosedClass => "unclosed character class; missing ']'"
  | invalidRange first last =>
    "invalid range; '" ++ toString first ++ "' > '" ++ toString last ++ "'"
  | unopenedGroup =>
    "unopened alternate group; missing '\x7b' (maybe escape '\x7d' with '[\x7d]'?)"
  | unclosedGroup =>
    "unclosed alternate group; missing '\x7d' (maybe escape '\x7b' with '[\x7b]'?)"
  | danglingEscape => "dangling '\\'"

/-- A character class that is being read: its ranges from the last, and whether a dash has been
seen that may join the last of them to what comes next. -/
structure OpenClass where
  negated : Bool
  ranges : List (Char × Char) := []
  /-- Nothing has been read yet, not even the mark of a negated class. -/
  fresh : Bool := true
  inRange : Bool := false

namespace OpenClass

/-- Ends the last range at `c`. -/
def close (cls : OpenClass) (c : Char) : Except PatternError OpenClass :=
  match cls.ranges with
  | (first, _) :: rest =>
    if c < first then .error (.invalidRange first c)
    else .ok { cls with ranges := (first, c) :: rest, inRange := false, fresh := false }
  | [] => .ok cls

def single (cls : OpenClass) (c : Char) : OpenClass :=
  { cls with ranges := (c, c) :: cls.ranges, fresh := false }

/-- Reads a character that does not close the class. -/
def add (cls : OpenClass) (c : Char) : Except PatternError OpenClass :=
  if c = '-' && cls.fresh then .ok (cls.single c)
  else if c = ']' then .ok (cls.single c)
  else if cls.inRange then cls.close c
  else if c = '-' then .ok { cls with inRange := true }
  else .ok (cls.single c)

/-- A dash at the end stands for itself. -/
def token (cls : OpenClass) : Token :=
  .oneOf cls.negated ((if cls.inRange then ('-', '-') :: cls.ranges else cls.ranges).reverse)

end OpenClass

/-- A group that has been opened: what stands in front of it, and its finished branches, both
from the last. -/
structure OpenGroup where
  front : List Token
  branches : List (List Token) := []

structure Reading where
  /-- The tokens of the open branch from the last. -/
  tokens : List Token := []
  groups : List OpenGroup := []
  cls : Option OpenClass := none

namespace Reading

def push (r : Reading) (t : Token) : Reading := { r with tokens := t :: r.tokens }

def openGroup (r : Reading) : Reading :=
  { r with tokens := [], groups := ⟨r.tokens, []⟩ :: r.groups }

def nextBranch (r : Reading) : Reading :=
  match r.groups with
  | [] => r.push (.literal ',')
  | g :: gs =>
    { r with tokens := [], groups := { g with branches := r.tokens.reverse :: g.branches } :: gs }

def closeGroup (r : Reading) : Except PatternError Reading :=
  match r.groups with
  | [] => .error .unopenedGroup
  | g :: gs =>
    .ok { r with
      tokens := .alternatives (r.tokens.reverse :: g.branches).reverse :: g.front
      groups := gs }

/-- Replaces the last token by a `**` with this meaning; one `**` behind another adds nothing. -/
def replaceLast (r : Reading) (t : Token) : Reading :=
  match r.tokens with
  | .anyFront :: rest => { r with tokens := .anyFront :: rest }
  | .anyEnd :: rest => { r with tokens := .anyEnd :: rest }
  | _ :: rest => { r with tokens := t :: rest }
  | [] => { r with tokens := [t] }

/-- Whether a `**` behind `before` can stand for directories. -/
def mayCross (r : Reading) (before : Option Char) : Bool :=
  before = some '/' || (!r.groups.isEmpty && (before = some ',' || before = some '{'))

/-- Reads a `**` in front of a slash, which belongs to it. -/
def starsSlash (r : Reading) (before : Option Char) : Option Reading :=
  if r.tokens.isEmpty then some (r.push .anyFront)
  else if r.mayCross before then some (r.replaceLast .anyMiddle)
  else none

/-- Reads a `**` that no slash follows. -/
def stars (r : Reading) (before next : Option Char) : Reading :=
  let plain := (r.push .many).push .many
  if r.tokens.isEmpty then if next.isNone then r.push .anyFront else plain
  else if r.mayCross before &&
      (next.isNone || (!r.groups.isEmpty && (next = some ',' || next = some '}'))) then
    r.replaceLast .anyEnd
  else plain

/-- Reads a character outside of classes that is neither a star nor a backslash. -/
def plainChar (r : Reading) (c : Char) : Except PatternError Reading :=
  if c = '?' then .ok (r.push .one)
  else if c = '{' then .ok r.openGroup
  else if c = '}' then r.closeGroup
  else if c = ',' then .ok r.nextBranch
  else .ok (r.push (.literal c))

def finish (r : Reading) : Except PatternError (List Token) :=
  if r.cls.isSome then .error .unclosedClass
  else if r.groups.isEmpty then .ok r.tokens.reverse
  else .error .unclosedGroup

/-- Reads the rest of a pattern behind the character `before`. -/
def run (r : Reading) (before : Option Char) : List Char → Except PatternError (List Token)
  | [] => r.finish
  | '*' :: '*' :: '/' :: rest =>
    match r.cls with
    | some cls => do
      let cls ← cls.add '*'
      let cls ← cls.add '*'
      let cls ← cls.add '/'
      run { r with cls := some cls } (some '/') rest
    | none =>
      match r.starsSlash before with
      | some r => run r (some '/') rest
      | none => run (((r.push .many).push .many).push (.literal '/')) (some '/') rest
  | '*' :: '*' :: rest =>
    match r.cls with
    | some cls => do
      let cls ← cls.add '*'
      let cls ← cls.add '*'
      run { r with cls := some cls } (some '*') rest
    | none => run (r.stars before rest.head?) (some '*') rest
  | c :: rest =>
    match r.cls with
    | some cls =>
      if c = ']' && !cls.fresh then run { r.push cls.token with cls := none } (some c) rest
      else do
        let cls ← cls.add c
        run { r with cls := some cls } (some c) rest
    | none =>
      if c = '*' then run (r.push .many) (some c) rest
      else if c = '[' then
        match rest with
        | '!' :: after => run { r with cls := some ⟨true, [], true, false⟩ } (some '!') after
        | '^' :: after => run { r with cls := some ⟨true, [], true, false⟩ } (some '^') after
        | after => run { r with cls := some ⟨false, [], true, false⟩ } (some '[') after
      else if c = '\\' then
        match rest with
        | [] => .error .danglingEscape
        | d :: after => run (r.push (.literal d)) (some d) after
      else do
        let r ← r.plainChar c
        run r (some c) rest

end Reading

namespace Pattern

def parse (pattern : String) : Except PatternError (List Token) :=
  ({} : Reading).run none pattern.toList

end Pattern

end Schemata.Glob
