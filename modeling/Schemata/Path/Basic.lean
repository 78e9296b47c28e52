/-!
Paths as text and as components. Repeated slashes, slashes at the end and `.` between other
components make no difference to the components; a leading `.` does. What the text adds is how a
path is shown.
-/
namespace Schemata.Path

inductive Component where
  | root
  /-- The component `.`, which is kept only in front. -/
  | current
  | parent
  | name (text : List Char)
  deriving DecidableEq, Repr

def Component.text : Component → List Char
  | root => ['/']
  | current => ['.']
  | parent => ['.', '.']
  | name text => text

/-- The pieces between slashes. -/
def pieces : List Char → List (List Char)
  | [] => [[]]
  | c :: rest =>
    if c = '/' then [] :: pieces rest
    else
      match pieces rest with
      | [] => [[c]]
      | piece :: others => (c :: piece) :: others

/-- The component that a piece behind the first stands for. -/
def ofPiece? (piece : List Char) : Option Component :=
  if piece = [] ∨ piece = ['.'] then none
  else if piece = ['.', '.'] then some .parent
  else some (.name piece)

def isAbsolute (path : List Char) : Bool := path.head? == some '/'

def components (path : List Char) : List Component :=
  let parts := pieces path
  let front :=
    if isAbsolute path then [Component.root]
    else if parts.head? = some ['.'] then [.current]
    else []
  front ++ parts.filterMap ofPiece?

/-- A path set behind a directory; an absolute path stands for itself. -/
def join (directory path : List Char) : List Char :=
  if isAbsolute path then path
  else if directory = [] ∨ directory.getLast? = some '/' then directory ++ path
  else directory ++ '/' :: path

/-- Drops slashes and `.` components from the end of a path, of which `kept` characters stay. The
path is given from its end. -/
def trimEnd (kept : Nat) : List Char → List Char
  | [] => []
  | '/' :: rest => if rest.length < kept then '/' :: rest else trimEnd kept rest
  | '.' :: '/' :: rest =>
    if rest.length < kept then '.' :: '/' :: rest else trimEnd kept ('/' :: rest)
  | cs => cs

/-- The directory that holds what a path names, as text; the root and the empty path have none. -/
def directory? (path : List Char) : Option (List Char) :=
  match (components path).getLast? with
  | none => none
  | some .root => none
  | some last =>
    let kept := if isAbsolute path then 1 else 0
    let front := (trimEnd kept path.reverse).drop last.text.length
    some (trimEnd kept front).reverse

/-- The last component if it is a name. -/
def fileName? (path : List Char) : Option (List Char) :=
  match (components path).getLast? with
  | some (.name text) => some text
  | _ => none

/-- What follows the last dot of the file name, unless the dot leads. -/
def extension? (path : List Char) : Option (List Char) := do
  let reversed := (← fileName? path).reverse
  match reversed.dropWhile (· ≠ '.') with
  | '.' :: _ :: _ => some (reversed.takeWhile (· ≠ '.')).reverse
  | _ => none

end Schemata.Path
