import Schemata.Files.Failure
import Schemata.Path.Basic

/-!
A tree of files as a value. A place is the names on the way from the root; a place holds a file, a
directory or nothing. Paths are followed name by name, as the system does it: what is passed through
has to be a directory, and `..` leads to the directory that holds the one reached so far.
-/
namespace Schemata.Files

/-- The names on the way from the root. -/
abbrev Place := List (List Char)

inductive Node where
  | file (content : ByteArray)
  | directory
  deriving BEq, Inhabited

/-- A tree of files by place; the latest entry for a place counts. The root is a directory. -/
structure Tree where
  nodes : List (Place × Node) := []
  deriving Inhabited

namespace Tree

def node? (t : Tree) (place : Place) : Option Node :=
  if place = [] then some .directory else t.nodes.lookup place

def content? (t : Tree) (place : Place) : Option ByteArray :=
  match t.node? place with
  | some (.file content) => some content
  | _ => none

def put (t : Tree) (place : Place) (node : Node) : Tree :=
  ⟨(place, node) :: t.nodes.filter fun entry => entry.1 ≠ place⟩

def erase (t : Tree) (place : Place) : Tree :=
  ⟨t.nodes.filter fun entry => !place.isPrefixOf entry.1⟩

/-- Where a path leads, and whether it asks for a directory there. -/
structure Target where
  place : Place
  asDirectory : Bool
  deriving DecidableEq, Repr

def nameLimit : Nat := 255

/-- Follows the pieces of a path from a directory. -/
def follow (t : Tree) (here : Place) : List (List Char) → Except Failure Target
  | [] => .ok ⟨here, true⟩
  | piece :: rest =>
    if piece = [] ∨ piece = ['.'] then follow t here rest
    else if piece = ['.', '.'] then follow t here.dropLast rest
    else if nameLimit < (String.ofList piece).utf8ByteSize then .error .nameTooLong
    else
      let next := here ++ [piece]
      if rest.all (· == []) then .ok ⟨next, !rest.isEmpty⟩
      else
        match t.node? next with
        | none => .error .notFound
        | some (.file _) => .error .notDirectory
        | some .directory => follow t next rest

/-- Where an absolute path leads. -/
def locate (t : Tree) (path : List Char) : Except Failure Target :=
  if '\x00' ∈ path then .error .invalidPath
  else if path = [] then .error .notFound
  else follow t [] (Path.pieces path)

def at? (t : Tree) (path : List Char) : Except Failure Node := do
  let target ← t.locate path
  match t.node? target.place with
  | none => .error .notFound
  | some (.file content) => if target.asDirectory then .error .notDirectory else .ok (.file content)
  | some .directory => .ok .directory

def holds (t : Tree) (path : List Char) : Bool := (t.at? path).isOk

def isDirectory (t : Tree) (path : List Char) : Bool :=
  match t.at? path with
  | .ok .directory => true
  | _ => false

def isFile (t : Tree) (path : List Char) : Bool :=
  match t.at? path with
  | .ok (.file _) => true
  | _ => false

def read (t : Tree) (path : List Char) : Except Failure ByteArray := do
  match ← t.at? path with
  | .file content => .ok content
  | .directory => .error .isDirectory

def write (t : Tree) (path : List Char) (content : ByteArray) : Except Failure Tree := do
  let target ← t.locate path
  match t.node? target.place with
  | some .directory => .error .isDirectory
  | some (.file _) =>
    if target.asDirectory then .error .notDirectory else .ok (t.put target.place (.file content))
  | none =>
    if target.asDirectory then .error .isDirectory else .ok (t.put target.place (.file content))

/-- Makes one directory, which must not be there yet. -/
def makeDirectory (t : Tree) (path : List Char) : Except Failure Tree := do
  let target ← t.locate path
  match t.node? target.place with
  | some _ => .error .alreadyExists
  | none => .ok (t.put target.place .directory)

/-- Makes a directory that may be there already. -/
def ensureDirectory (t : Tree) (path : List Char) : Except Failure Tree :=
  match t.makeDirectory path with
  | .ok made => .ok made
  | .error failure => if t.isDirectory path then .ok t else .error failure

/-- Makes a directory with those above it, of which at most `bound` are missing. What was made
before a failure stays. -/
def makeDirectoriesWithin : Nat → Tree → List Char → Except Failure Unit × Tree
  | 0, t, _ => (.error .notFound, t)
  | bound + 1, t, path =>
    match t.ensureDirectory path with
    | .ok made => (.ok (), made)
    | .error .notFound =>
      match Path.directory? path with
      | none => (.error (.other "failed to create whole tree"), t)
      | some above =>
        match makeDirectoriesWithin bound t above with
        | (.error failure, made) => (.error failure, made)
        | (.ok (), made) =>
          match made.ensureDirectory path with
          | .ok made => (.ok (), made)
          | .error failure => (.error failure, made)
    | .error failure => (.error failure, t)

def makeDirectories (t : Tree) (path : List Char) : Except Failure Unit × Tree :=
  if path = [] then (.ok (), t) else makeDirectoriesWithin (path.length + 1) t path

end Tree

end Schemata.Files
