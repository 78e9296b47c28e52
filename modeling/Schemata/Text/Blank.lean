/-!
Blank characters and the trimming and cutting of text that goes by them.
-/
namespace Schemata.Text

/-- The characters with the property White_Space. -/
def isBlank (c : Char) : Bool :=
  let n := c.toNat
  (9 ≤ n && n ≤ 13) || n == 0x20 || n == 0x85 || n == 0xA0 || n == 0x1680 ||
    (0x2000 ≤ n && n ≤ 0x200A) || n == 0x2028 || n == 0x2029 || n == 0x202F || n == 0x205F ||
    n == 0x3000

/-- Drops the longest tail whose characters all satisfy `p`. -/
def dropRight (p : Char → Bool) (cs : List Char) : List Char := (cs.reverse.dropWhile p).reverse

def trimLeft (cs : List Char) : List Char := cs.dropWhile isBlank

def trim (cs : List Char) : List Char := dropRight isBlank (trimLeft cs)

/-- Drops the start `front` as often as it stands there. -/
def stripAll (front : List Char) (cs : List Char) : List Char :=
  if front.isEmpty then cs
  else if front.isPrefixOf cs then stripAll front (cs.drop front.length) else cs
termination_by cs.length
decreasing_by
  rename_i notEmpty starts
  have := (List.isPrefixOf_iff_prefix.mp starts).length_le
  cases front with
  | nil => simp at notEmpty
  | cons c rest => simp only [List.length_drop, List.length_cons] at *; omega

/-- Drops the end `tail` as often as it stands there. -/
def stripAllRight (tail : List Char) (cs : List Char) : List Char :=
  (stripAll tail.reverse cs.reverse).reverse

def splitLines : List Char → List (List Char)
  | [] => [[]]
  | c :: rest =>
    if c = '\n' then [] :: splitLines rest
    else
      match splitLines rest with
      | [] => [[c]]
      | line :: lines => (c :: line) :: lines

/-- Drops one carriage return at the end. -/
def dropReturn (line : List Char) : List Char :=
  if line.getLast? = some '\r' then line.dropLast else line

/-- The lines of a text without their ends; a last line that is empty does not count. A carriage
return belongs to the end only in front of a line feed. -/
def lines (cs : List Char) : List (List Char) :=
  let pieces := splitLines cs
  let closed := pieces.dropLast.map dropReturn
  match pieces.getLast? with
  | some last => if last.isEmpty then closed else closed ++ [last]
  | none => closed

def firstWord (cs : List Char) : List Char := (trimLeft cs).takeWhile (!isBlank ·)

end Schemata.Text
