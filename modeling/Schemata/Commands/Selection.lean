import Schemata.Commands.Invocation
import Schemata.Config.Basic
import Schemata.Files.Access

/-!
The entries that a command works on: those of the configuration in the project's root, all of them
or one by its name. A project without a configuration has no entries.
-/
namespace Schemata.Commands

open Files

/-- Why no entries were selected. -/
inductive Refusal where
  | unreadable (file : String) (failure : Files.Failure)
  | malformed (file : String) (error : Config.Error)
  | unknownEntry (name : String)
  | noEntries
  /-- Several entries without a word on which to take. -/
  | ambiguous (count : Nat)
  /-- One file for the assertions on several entries. -/
  | sharedAssertions
  /-- More than one entry would be printed. -/
  | severalWithoutOutput
  deriving DecidableEq, Repr

def Refusal.message : Refusal → String
  | unreadable file failure => "failed to read " ++ file ++ ": " ++ failure.message
  | malformed file error => error.message file
  | unknownEntry name => "no config entry named '" ++ name ++ "'"
  | noEntries =>
    "no entries in " ++ Config.fileName ++ ". Run `zodgen init` or pass an input file."
  | ambiguous count => toString count ++ " entries configured; pass --config NAME or --all"
  | sharedAssertions => "--with-test needs a single entry"
  | severalWithoutOutput => "several entries without an output file; set `output` for each"

def configPath (root : String) : String := Config.Entry.resolve root Config.fileName

variable {m : Type → Type} [Monad m] [Access m]

def loadConfig (root : String) : m (Except Refusal Config) := do
  let file := configPath root
  if !(← Access.holds file) then pure (.ok {})
  else
    match ← Access.read file with
    | .error failure => pure (.error (.unreadable file failure))
    | .ok text => pure ((Config.parse text).mapError (.malformed file))

/-- The entries of a configuration, or the one with a name. -/
def selectEntries (config : Config) : Option String → Except Refusal (List Config.Entry)
  | some name =>
    match config.find? name with
    | some e => .ok [e]
    | none => .error (.unknownEntry name)
  | none => if config.entries.isEmpty then .error .noEntries else .ok config.entries

namespace GenerateRequest

/-- What the command line says of an entry stands above what the entry says. -/
def amend (r : GenerateRequest) (e : Config.Entry) : Config.Entry :=
  { e with
    maxRounds := r.maxRounds.getD e.maxRounds
    keepComments := e.keepComments || r.keepComments
    ignoreTags := e.ignoreTags || r.ignoreTags
    assertions := r.assertions <|> e.assertions }

/-- The entries that a request takes from a configuration. -/
def choose (r : GenerateRequest) (config : Config) : Except Refusal (List Config.Entry) := do
  let entries ← selectEntries config r.entry
  if 1 < entries.length && !r.all && r.entry.isNone then .error (.ambiguous entries.length)
  else .ok entries

/-- Amends entries, of which at most one can have its assertions written to a file of the command
line's choice. -/
def amendAll (r : GenerateRequest) (entries : List Config.Entry) :
    Except Refusal (List Config.Entry) :=
  if r.assertions.isSome && 1 < entries.length then .error .sharedAssertions
  else if 1 < (entries.filter (·.output.isNone)).length then .error .severalWithoutOutput
  else .ok (entries.map r.amend)

/-- The entries of a request: its input as an entry of its own, or entries of the project. -/
def entries (r : GenerateRequest) (root : String) : m (Except Refusal (List Config.Entry)) := do
  match r.input with
  | some input => pure (r.amendAll [{ input, output := r.output }])
  | none => do
    match ← loadConfig root with
    | .error refusal => pure (.error refusal)
    | .ok config => pure (r.choose config >>= r.amendAll)

end GenerateRequest

end Schemata.Commands
