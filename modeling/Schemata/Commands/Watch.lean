import Schemata.Commands.EntryRun
import Schemata.Commands.Output
import Schemata.Commands.Selection
import Schemata.Fingerprint
import Schemata.Report.Human
import Schemata.Report.Json

/-!
The command `watch`, which generates entries again when their inputs change. An entry whose input
and options are those of its last generation is left alone.
-/
namespace Schemata.Commands

open Files Report

structure Watched where
  entry : Config.Entry
  fingerprint : Option String := none
  deriving DecidableEq, Repr

namespace Watched

/-- The fingerprint of an entry's input and options. -/
def fingerprintOf (e : Config.Entry) (source : String) : String :=
  Fingerprint.generation source e.toJson.compact

def unchanged (e : Config.Entry) : EntryRun :=
  ⟨{ name := e.label, input := e.input, status := .unchanged }, none⟩

variable {m : Type → Type} [Monad m] [Access m]

/-- Generates an entry unless it is as it was. -/
def refresh (root : String) (w : Watched) : m (EntryRun × Watched) := do
  match ← Access.read (w.entry.inputPath root) with
  | .error failure => pure (EntryRun.unreadable w.entry failure, { w with fingerprint := none })
  | .ok source => do
    let current := fingerprintOf w.entry source
    if w.fingerprint == some current then pure (unchanged w.entry, w)
    else
      let run ← EntryRun.ofSource root w.entry source
      pure (run, { w with fingerprint := if run.report.isFailed then none else some current })

end Watched

/-- The output on refreshed entries. Entries left alone are reported only on demand. -/
def watchOutput (json verbose : Bool) (runs : List EntryRun) : Output :=
  let reported := (runs.map (·.report)).filter fun r => verbose || r.status ≠ .unchanged
  let report : GenerateReport := ⟨"watch", reported⟩
  { stdout := String.join (runs.filterMap (·.printed))
    stderr :=
      if reported.isEmpty then "" else if json then report.toJson.pretty else report.human }

/-- The directories that hold the inputs of entries, in order, each once. -/
def watchedDirectories (root : String) (entries : List Config.Entry) : List String :=
  let directories := entries.filterMap fun e => Path.directory? (e.inputPath root).toList
  let names (directory : List Char) : List String :=
    (Path.components directory).map (String.ofList ·.text)
  let byNames (a b : List Char) : Bool := !decide (names b < names a)
  ((directories.mergeSort byNames).map String.ofList).eraseDups

variable {m : Type → Type} [Monad m] [Access m]

def firstMissing : List String → m (Option String)
  | [] => pure none
  | path :: paths => do if ← Access.holds path then firstMissing paths else pure (some path)

/-- The entries to watch, if all their directories can be watched. -/
def watchStart (root : String) (name : Option String) : m (Except String (List Watched)) := do
  match ← loadConfig root with
  | .error refusal => pure (.error refusal.message)
  | .ok config =>
    match selectEntries config name with
    | .error refusal => pure (.error refusal.message)
    | .ok entries =>
      match ← firstMissing (watchedDirectories root entries) with
      | some path =>
        pure (.error ("failed to watch " ++ path ++ ": No path was found. about [" ++
          Text.Quoted.quote path ++ "]"))
      | none => pure (.ok (entries.map (⟨·, none⟩)))

def refreshAll (root : String) : List Watched → m (List (EntryRun × Watched))
  | [] => pure []
  | w :: ws => do
    let run ← w.refresh root
    (run :: ·) <$> refreshAll root ws

/-- A watched entry with the text that its input had when it was last looked at. -/
structure Seen where
  watched : Watched
  source : Option String
  deriving DecidableEq, Repr

def currentSource (root : String) (w : Watched) : m (Option String) := do
  pure (← Access.read (w.entry.inputPath root)).toOption

def seeAll (root : String) : List Watched → m (List Seen)
  | [] => pure []
  | w :: ws => do
    let source ← currentSource root w
    (⟨w, source⟩ :: ·) <$> seeAll root ws

/-- The first generation of the watched entries. -/
def watchFirst (root : String) (json verbose : Bool) (name : Option String) :
    m (Output × List Seen) := do
  match ← watchStart root name with
  | .error message => pure (.refused "watch" message, [])
  | .ok watched => do
    let runs ← refreshAll root watched
    let output := watchOutput json verbose (runs.map (·.1))
    let started := Output.line "watch"
      ("watching " ++ toString watched.length ++ " input(s)... (Ctrl+C to stop)")
    let entries ← seeAll root (runs.map (·.2))
    pure ({ output with stderr := output.stderr ++ started }, entries)

/-- Refreshes the entries whose inputs have a text that was not seen yet. -/
def refreshChanged (root : String) : List Seen → m (List EntryRun × List Seen)
  | [] => pure ([], [])
  | seen :: others => do
    let source ← currentSource root seen.watched
    if source.isNone || source == seen.source then
      let (runs, rest) ← refreshChanged root others
      pure (runs, seen :: rest)
    else
      let (run, watched) ← seen.watched.refresh root
      let (runs, rest) ← refreshChanged root others
      pure (run :: runs, ⟨watched, source⟩ :: rest)

/-- The output on what has changed since entries were last looked at. -/
def watchAgain (root : String) (json verbose : Bool) (entries : List Seen) :
    m (Output × List Seen) := do
  let (runs, entries) ← refreshChanged root entries
  pure (watchOutput json verbose runs, entries)

/-- The output up to the first change. -/
def watch (root : String) (json verbose : Bool) (name : Option String) : m Output :=
  (·.1) <$> watchFirst root json verbose name

end Schemata.Commands
