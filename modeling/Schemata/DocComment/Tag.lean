import Schemata.Text.Blank

/-!
Tags of documentation comments. A comment is read line by line without its gutter of stars; a line
that begins with `@` is a tag, whose name ends at the first blank and whose value is the rest.
-/
namespace Schemata.DocComment

open Text

structure Tag where
  name : String
  value : String
  deriving DecidableEq, Repr, Inhabited

namespace Tag

/-- Cuts at the first blank; without one the value is empty. -/
def ofText (cs : List Char) : Tag :=
  ⟨String.ofList (cs.takeWhile (!isBlank ·)),
    String.ofList (trim ((cs.dropWhile (!isBlank ·)).drop 1))⟩

/-- A line without blanks and the stars in front. -/
def dropGutter (line : List Char) : List Char := trim ((trim line).dropWhile (· == '*'))

def ofLine? (line : List Char) : Option Tag :=
  match dropGutter line with
  | '@' :: rest => some (ofText rest)
  | _ => none

/-- What stands between the opening and the closing of a comment. -/
def body (comment : List Char) : List Char :=
  stripAllRight "*/".toList (stripAll "/**".toList (trim comment))

def ofComment (comment : String) : List Tag := (lines (body comment.toList)).filterMap ofLine?

end Tag

end Schemata.DocComment
