import Schemata.Commands.EntryRun
import Schemata.Commands.Output
import Schemata.Commands.Selection
import Schemata.Report.Human
import Schemata.Report.Json

/-!
The command `generate`. Every selected entry is generated, whatever becomes of the others; the code
tells the worst that happened.
-/
namespace Schemata.Commands

open Files Report

/-- The code of a report: a failure weighs more than a validator that could not be placed, which
weighs only where success has to be complete. -/
def exitCode (strict : Bool) (report : GenerateReport) : UInt8 :=
  if report.hasFailures then 2 else if strict && report.hasUnresolved then 1 else 0

def errorLines (report : GenerateReport) : String :=
  String.join (report.entries.map fun entry =>
    String.join (entry.errors.map fun error =>
      Output.line "generate" (entry.name ++ ": " ++ error)))

/-- The output on the runs of all entries. A module that is printed has the first text for itself,
so that a report as JSON then goes to the second one. -/
def generateOutput (json verbose strict : Bool) (runs : List EntryRun) : Output :=
  let report : GenerateReport := ⟨"generate", runs.map (·.report)⟩
  let printed := String.join (runs.filterMap (·.printed))
  let code := exitCode strict report
  if json then
    let text := report.toJson.pretty ++ "\n"
    if runs.any (·.printed.isSome) then ⟨code, printed, text⟩ else ⟨code, text, ""⟩
  else
    let human :=
      if verbose || report.hasFailures || report.hasUnresolved then report.human else ""
    ⟨code, printed, errorLines report ++ human⟩

variable {m : Type → Type} [Monad m] [Access m]

def generate (root : String) (json verbose : Bool) (request : GenerateRequest) : m Output := do
  match ← request.entries root with
  | .error refusal => pure (.refused "generate" refusal.message)
  | .ok entries => do
    let runs ← entries.mapM (EntryRun.ofEntry root)
    pure (generateOutput json verbose request.strict runs)

end Schemata.Commands
