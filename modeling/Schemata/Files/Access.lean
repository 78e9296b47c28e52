import Schemata.Files.Tree

/-!
Access to files, as commands need it. A tree of files gives it as a state, so that what a command
does can be computed and reasoned about; a program gives it by the system.
-/
namespace Schemata.Files

class Access (m : Type → Type) where
  holds (path : String) : m Bool
  isFile (path : String) : m Bool
  read (path : String) : m (Except Failure String)
  write (path text : String) : m (Except Failure Unit)
  /-- Makes a directory with those above it, unless it is there. -/
  makeDirectories (path : String) : m (Except Failure Unit)

namespace Tree

def readText (t : Tree) (path : List Char) : Except Failure String := do
  match String.fromUTF8? (← t.read path) with
  | some text => .ok text
  | none => .error .invalidText

def writeText (t : Tree) (path : List Char) (text : String) : Except Failure Unit × Tree :=
  match t.write path text.toUTF8 with
  | .ok written => (.ok (), written)
  | .error failure => (.error failure, t)

end Tree

instance : Access (StateM Tree) where
  holds path := do pure ((← get).holds path.toList)
  isFile path := do pure ((← get).isFile path.toList)
  read path := do pure ((← get).readText path.toList)
  write path text := modifyGet fun t => t.writeText path.toList text
  makeDirectories path := modifyGet fun t => t.makeDirectories path.toList

/-- Writes a text into a file, for which directories are made where they are missing. -/
def writeWithin {m : Type → Type} [Monad m] [Access m] (path text : String) :
    m (Except String Unit) := do
  let above := String.ofList ((Path.directory? path.toList).getD [])
  let made ← if above.isEmpty then pure (.ok ()) else Access.makeDirectories above
  match made with
  | .error failure => pure (.error ("failed to create " ++ above ++ ": " ++ failure.message))
  | .ok () =>
    match ← Access.write path text with
    | .error failure => pure (.error ("failed to write " ++ path ++ ": " ++ failure.message))
    | .ok () => pure (.ok ())

end Schemata.Files
