import Schemata.Commands.Output
import Schemata.Commands.Selection
import Schemata.Report.Human
import Schemata.Report.Json
import Schemata.Text.Blank

/-!
The command `list`, which shows the configured entries.
-/
namespace Schemata.Commands

open Files Report

def listEntry (e : Config.Entry) : ListEntry :=
  ⟨e.label, e.input, e.output, e.assertions, e.maxRounds⟩

def listText (json : Bool) (config : Config) : String :=
  let report : ListReport := ⟨config.entries.map listEntry⟩
  let text := if json then report.toJson.pretty else report.human
  String.ofList (Text.dropRight Text.isBlank text.toList) ++ "\n"

variable {m : Type → Type} [Monad m] [Access m]

def list (root : String) (json : Bool) : m Output := do
  match ← loadConfig root with
  | .error refusal => pure (.refused "list" refusal.message)
  | .ok config => pure { stdout := listText json config }

end Schemata.Commands
