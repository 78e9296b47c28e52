import Schemata.TypeScript.Grammar

/-!
The declarations of a source. A source is statements with comments between them; a declaration
takes its documentation from the last comment in front of it.
-/
namespace Schemata.TypeScript.Source

open Grammar

/-- A source that does not read: the statement that fails, and the farthest word that was read
in it. -/
structure Failure where
  statement : Cursor
  far : Cursor
  deriving Repr

/-- The declaration that a statement between two places makes. -/
def declaration (comments : List Comment) (start stop : Cursor) (d : Declared)
    (exported : Bool) : Declaration where
  name := d.name
  exported
  doc := comments.getLast?.bind (·.doc? start.row)
  firstLine := start.row + 1
  lastLine := stop.row + 1
  typeParameters := d.typeParameters
  body := d.body

/-- The declarations of at most `bound` statements up to the end of the source. -/
def readFrom (g : Grammar) : Nat → Cursor → Except Failure (List Declaration)
  | 0, c => .error ⟨c, c⟩
  | bound + 1, c =>
    let (comments, start) := c.skipTrivia
    if start.rest.isEmpty then .ok []
    else
      match topStatement g ⟨start, start⟩ with
      | .error far => .error ⟨start, far⟩
      | .ok (found, state) =>
        (readFrom g bound state.here).map fun others =>
          match found with
          | some (d, exported) => declaration comments start state.here d exported :: others
          | none => others

/-- Passes over a first line that names an interpreter. -/
def skipInterpreter (c : Cursor) : Cursor :=
  let start := c.skipSpaces
  match start.rest with
  | '#' :: '!' :: _ => start.advance (start.rest.takeWhile (· ≠ '\n')).length
  | _ => c

def read (elements : Bool) (text : List Char) : Except Failure (List Declaration) :=
  readFrom (ofLength elements text.length) (text.length + 1) (skipInterpreter (.start text))

end Schemata.TypeScript.Source
