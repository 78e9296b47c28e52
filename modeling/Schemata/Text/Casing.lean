import Schemata.Text.Casing.Table

/-!
Letter case. ASCII letters follow their own rule, all other characters the table; a capital sigma
is lowered to its final form where it ends a word.
-/
namespace Schemata.Text

namespace Casing

def Run.contains (r : Run) (n : Nat) : Bool :=
  r.first ≤ n && n ≤ r.last && (n - r.first) % r.step == 0

def inRuns (runs : Array Run) (n : Nat) : Bool := runs.any (·.contains n)

def isAscii (c : Char) : Bool := c.toNat < 128

/-- What a code point turns into, by the mappings to several characters first. -/
def convert (specials : Array (Nat × List Nat)) (shifts : Array Shift) (c : Char) : List Char :=
  match specials.find? (·.1 == c.toNat) with
  | some (_, targets) => targets.map Char.ofNat
  | none =>
    match shifts.find? (·.run.contains c.toNat) with
    | some shift => [Char.ofNat ((c.toNat : Int) + shift.distance).toNat]
    | none => [c]

end Casing

open Casing

def isUpper (c : Char) : Bool := if isAscii c then c.isUpper else inRuns upperRuns c.toNat

def isLower (c : Char) : Bool := if isAscii c then c.isLower else inRuns lowerRuns c.toNat

def isCased (c : Char) : Bool := isUpper c || isLower c || inRuns titleRuns c.toNat

/-- Characters that are passed over when looking for a neighbouring letter. -/
def isCaseIgnorable (c : Char) : Bool := inRuns ignorableRuns c.toNat

def upperChar (c : Char) : List Char :=
  if isAscii c then [c.toUpper] else convert toUpperSpecials toUpperShifts c

def lowerChar (c : Char) : List Char :=
  if isAscii c then [c.toLower] else convert toLowerSpecials toLowerShifts c

/-- Whether the first character that counts is a letter with case. -/
def leadsWithCased (cs : List Char) : Bool :=
  ((cs.dropWhile isCaseIgnorable).head?).any isCased

/-- A sigma ends a word when a letter stands before it and none after it. -/
def lowerSigma (before after : List Char) : Char :=
  if leadsWithCased before && !leadsWithCased after then 'ς' else 'σ'

/-- Lowers a text, given the characters in front of it, the nearest first. -/
def lowerFrom (before : List Char) : List Char → List Char
  | [] => []
  | c :: rest =>
    (if c = 'Σ' then [lowerSigma before rest] else lowerChar c) ++ lowerFrom (c :: before) rest

def toLower (cs : List Char) : List Char := lowerFrom [] cs

def capitalize : List Char → List Char
  | [] => []
  | c :: rest => upperChar c ++ rest

end Schemata.Text
