import Schemata.Commands.Invocation

/-!
The command `completion`: a line for a shell's start-up file that completes the commands.
-/
namespace Schemata.Commands

def commandNames : List String := ["generate", "init", "watch", "list", "completion"]

def completionScript : Shell → String
  | .bash => "complete -W '" ++ " ".intercalate commandNames ++ "' zodgen\n"
  | .elvish =>
    "set edit:completion:arg-completer[zodgen] = \x7b|@words| put " ++
      " ".intercalate commandNames ++ " \x7d\n"
  | .fish => "complete -c zodgen -f -a '" ++ " ".intercalate commandNames ++ "'\n"
  | .powershell =>
    "Register-ArgumentCompleter -Native -CommandName zodgen -ScriptBlock \x7b '" ++
      "', '".intercalate commandNames ++ "' \x7d\n"
  | .zsh => "compctl -k '(" ++ " ".intercalate commandNames ++ ")' zodgen\n"

end Schemata.Commands
