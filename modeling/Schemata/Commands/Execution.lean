import Schemata.Commands.Arguments
import Schemata.Commands.Completion
import Schemata.Commands.Generate
import Schemata.Commands.Init
import Schemata.Commands.List
import Schemata.Commands.Watch

/-!
Carrying out a command line. One that is refused changes nothing.
-/
namespace Schemata.Commands

open Files

def usageText : String :=
  "Usage: zodgen [--json] [--verbose] <command>\n\nCommands:\n" ++
    "  generate [input] [output]  write validators for a source or for configured entries\n" ++
    "  init                       write a first configuration\n" ++
    "  watch                      generate entries again when their inputs change\n" ++
    "  list                       show the configured entries\n" ++
    "  completion <shell>         print a completion script\n"

variable {m : Type → Type} [Monad m] [Access m]

def execute (root : String) (i : Invocation) : m Output :=
  match i.command with
  | .generate request => generate root i.json i.verbose request
  | .init overwrite => init root i.verbose overwrite
  | .watch entry => watch root i.json i.verbose entry
  | .list => list root i.json
  | .completion shell => pure { stdout := completionScript shell }

/-- The output of a command line in a project; a line that is refused has none. -/
def run (root : String) (arguments : List String) : m (Except UsageError Output) :=
  match Call.ofArguments arguments with
  | .error refused => pure (.error refused)
  | .ok .help => pure (.ok { stdout := usageText })
  | .ok .version => pure (.ok { stdout := "zodgen " ++ Report.version ++ "\n" })
  | .ok (.run invocation) => .ok <$> execute root invocation

end Schemata.Commands
