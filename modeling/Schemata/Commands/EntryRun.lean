import Schemata.Config.Entry
import Schemata.Files.Access
import Schemata.Generation
import Schemata.Path.Specifier
import Schemata.Report.Basic

/-!
Generating one entry. Its modules are computed from its source alone; only then are they written,
the validators first.
-/
namespace Schemata.Commands

open Files Report

/-- What became of an entry, and the module that is printed where it has no output file. -/
structure EntryRun where
  report : EntryReport
  printed : Option String := none
  deriving DecidableEq, Repr

namespace EntryRun

def options (e : Config.Entry) (input : String) (filter : Glob.NameFilter) :
    Generation.Options where
  elements := Path.extension? input.toList == some "tsx".toList
  accepts := filter.accepts
  naming := e.naming
  maxRounds := e.maxRounds.toNat
  keepComments := e.keepComments
  ignoreTags := e.ignoreTags

def generation (root : String) (e : Config.Entry) (source : String) : Except String Generation := do
  let filter ← e.nameFilter.mapError (·.message)
  (Generation.ofSource (options e (e.inputPath root) filter) source).mapError fun failure =>
    e.input ++ ": " ++ failure.message

/-- The specifier of a file for modules in a directory. -/
def specifier (directory target : String) : String :=
  String.ofList (Path.specifier directory.toList target.toList)

/-- The specifier of a file for a module in a file. -/
def specifierFromFile (file target : String) : String :=
  String.ofList (Path.specifierFromFile file.toList target.toList)

def validators (root : String) (e : Config.Entry) (g : Generation) : String :=
  let directory :=
    ((e.outputPath root).bind fun path => Path.directory? path.toList).getD root.toList
  Modules.validators g.outcome (specifier (String.ofList directory) (e.inputPath root))

def assertions (root : String) (e : Config.Entry) (g : Generation) (file output : String) :
    String :=
  Modules.assertions g.outcome (specifierFromFile file (e.inputPath root))
    (specifierFromFile file output)

/-- The files of an entry with their texts in the order of writing. -/
def products (root : String) (e : Config.Entry) (g : Generation) :
    Except String (List (String × String)) :=
  match e.outputPath root, e.assertionsPath root with
  | none, none => .ok []
  | none, some _ => .error "a test module needs an output file to import from"
  | some output, none => .ok [(output, validators root e g)]
  | some output, some file =>
    .ok [(output, validators root e g), (file, assertions root e g file output)]

def failed (e : Config.Entry) (failure : String) : EntryRun :=
  ⟨.failed e.label e.input failure, none⟩

/-- The run of an entry whose files are written. -/
def done (root : String) (e : Config.Entry) (g : Generation) : EntryRun where
  report := {
    name := e.label
    input := e.input
    output := e.output
    assertions := e.assertions
    status := .generated
    declarations := g.candidates.length
    validators := g.validatorNames
    deferred := g.outcome.typeImports
    hasCircularDependencies := g.hasCircularDependencies
    errors := g.errors
    unresolved := g.findings }
  printed := if e.output.isNone then some (validators root e g) else none

variable {m : Type → Type} [Monad m] [Access m]

/-- Writes files up to the first that cannot be written. -/
def writeAll : List (String × String) → m (Except String Unit)
  | [] => pure (.ok ())
  | (path, text) :: others => do
    match ← writeWithin path text with
    | .ok () => writeAll others
    | .error failure => pure (.error failure)

/-- Generates an entry from its source. -/
def ofSource (root : String) (e : Config.Entry) (source : String) : m EntryRun := do
  match generation root e source with
  | .error failure => pure (failed e failure)
  | .ok g =>
    match products root e g with
    | .error failure => pure (failed e failure)
    | .ok files =>
      match ← writeAll files with
      | .error failure => pure (failed e failure)
      | .ok () => pure (done root e g)

def unreadable (e : Config.Entry) (failure : Files.Failure) : EntryRun :=
  failed e ("failed to read " ++ e.input ++ ": " ++ failure.message)

def ofEntry (root : String) (e : Config.Entry) : m EntryRun := do
  match ← Access.read (e.inputPath root) with
  | .error failure => pure (unreadable e failure)
  | .ok source => ofSource root e source

end EntryRun

end Schemata.Commands
