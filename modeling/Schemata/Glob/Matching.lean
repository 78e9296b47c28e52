import Schemata.Glob.Pattern

/-!
Matching names against glob tokens. A name is matched byte by byte, so a character beyond ASCII
counts as several. Each token maps the bytes in front of it to all ends that it can reach, and a
pattern matches when it reaches the end of the name.
-/
namespace Schemata.Glob

def bytesOf (c : Char) : List UInt8 := (String.singleton c).toUTF8.toList

/-- Every end of a list, the list itself first. -/
def suffixes : List UInt8 → List (List UInt8)
  | [] => [[]]
  | b :: rest => (b :: rest) :: suffixes rest

/-- The ends of a list behind a slash. -/
def afterSlashes : List UInt8 → List (List UInt8)
  | [] => []
  | b :: rest => if b = 47 then rest :: afterSlashes rest else afterSlashes rest

def dropFront : List UInt8 → List UInt8 → Option (List UInt8)
  | [], cs => some cs
  | _ :: _, [] => none
  | b :: bs, c :: cs => if b = c then dropFront bs cs else none

/-- Byte ranges of a range of characters. One that goes beyond ASCII is read byte by byte: from the
last byte of its first character to the first byte of its last. -/
def byteRanges (range : Char × Char) : List (UInt8 × UInt8) :=
  let (first, last) := range
  let points (bytes : List UInt8) := bytes.map fun b => (b, b)
  if first = last then points (bytesOf first)
  else
    let front := bytesOf first
    let back := bytesOf last
    points front.dropLast ++ [(front.getLastD 0, back.headD 0)] ++ points (back.drop 1)

def inRanges (ranges : List (Char × Char)) (b : UInt8) : Bool :=
  (ranges.flatMap byteRanges).any fun range => range.1 ≤ b && b ≤ range.2

mutual

/-- Whether a token says nothing: a group all of whose branches say nothing. -/
def isVoid : Token → Bool
  | .alternatives branches => branchesVoid branches
  | _ => false

def branchVoid : List Token → Bool
  | [] => true
  | t :: ts => isVoid t && branchVoid ts

def branchesVoid : List (List Token) → Bool
  | [] => true
  | b :: bs => branchVoid b && branchesVoid bs

end

mutual

/-- The ends that a token can reach. A group skips the branches that say nothing. -/
def reach (cs : List UInt8) : Token → List (List UInt8)
  | .literal c => (dropFront (bytesOf c) cs).toList
  | .one => match cs with
    | [] => []
    | _ :: rest => [rest]
  | .many => suffixes cs
  | .anyFront => cs :: afterSlashes cs
  | .anyEnd => match cs with
    | [] => []
    | b :: rest => if b = 47 then suffixes rest else []
  | .anyMiddle => match cs with
    | [] => []
    | b :: rest => if b = 47 then rest :: afterSlashes rest else []
  | .oneOf negated ranges => match cs with
    | [] => []
    | b :: rest => if inRanges ranges b != negated then [rest] else []
  | .alternatives branches =>
    if branchesVoid branches then [cs] else reachBranches cs branches

/-- The ends that a sequence of tokens can reach from any of the given places. -/
def reachAll (places : List (List UInt8)) : List Token → List (List UInt8)
  | [] => places
  | t :: ts => reachAll (places.flatMap fun cs => reach cs t).eraseDups ts

def reachBranches (cs : List UInt8) : List (List Token) → List (List UInt8)
  | [] => []
  | b :: bs => (if branchVoid b then [] else reachAll [cs] b) ++ reachBranches cs bs

end

/-- Whether a name matches. A pattern that is nothing but `**` matches every name. -/
def accepts (tokens : List Token) (name : String) : Bool :=
  match tokens with
  | [.anyFront] => true
  | _ => (reachAll [name.toUTF8.toList] tokens).any List.isEmpty

end Schemata.Glob
