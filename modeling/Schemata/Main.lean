import Schemata.Commands.Execution

/-!
The program `zodgen`. It gives commands the files of the system and prints what they leave behind;
all else is decided in `Schemata.Commands`.
-/
namespace Schemata

open Commands Files

namespace Files

/-- A failure of the system in the words of this library. -/
def Failure.ofError : IO.Error → Failure
  | .noFileOrDirectory .. => .notFound
  | .alreadyExists .. => .alreadyExists
  | .inappropriateType _ 20 _ => .notDirectory
  | .inappropriateType _ 21 _ => .isDirectory
  | error => .other (toString error)

/-- What an action of the system gives, or why it failed. -/
def attempt {α : Type} (action : IO α) : IO (Except Failure α) := do
  try
    let result ← action
    pure (.ok result)
  catch error => pure (.error (.ofError error))

instance : Access IO where
  holds path := do
    match ← attempt (IO.FS.readBinFile path) with
    | .error .notFound | .error .notDirectory => pure false
    | _ => pure true
  isFile path := do pure (← attempt (IO.FS.readBinFile path)).isOk
  read path := do
    match ← attempt (IO.FS.readBinFile path) with
    | .error failure => pure (.error failure)
    | .ok content => pure ((String.fromUTF8? content).elim (.error .invalidText) .ok)
  write path text := attempt (IO.FS.writeFile path text)
  makeDirectories path := attempt (IO.FS.createDirAll path)

end Files

def Commands.Output.print (output : Output) : IO UInt32 := do
  IO.print output.stdout
  (← IO.getStdout).flush
  IO.eprint output.stderr
  pure output.code.toUInt32

/-- Looks at entries in turns, for good. -/
partial def watchOn (root : String) (json verbose : Bool) (entries : List Seen) : IO UInt32 := do
  IO.sleep 200
  let (output, entries) ← watchAgain root json verbose entries
  let _ ← output.print
  watchOn root json verbose entries

/-- Watches entries, which is refused if there are none to watch. -/
def watchFrom (root : String) (json verbose : Bool) (name : Option String) : IO UInt32 := do
  let (output, entries) ← watchFirst root json verbose name
  let code ← output.print
  if entries.isEmpty then pure code else watchOn root json verbose entries

def perform (arguments : List String) : IO UInt32 := do
  let root := (← IO.currentDir).toString
  match Call.ofArguments arguments with
  | .ok (.run ⟨json, verbose, .watch name⟩) => watchFrom root json verbose name
  | _ =>
    match ← Commands.run root arguments with
    | .ok output => output.print
    | .error refused => Output.print { code := 2, stderr := "error: " ++ refused.message ++ "\n" }

end Schemata

def main (arguments : List String) : IO UInt32 := Schemata.perform arguments
