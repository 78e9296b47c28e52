import Schemata.Commands.Output
import Schemata.Commands.Selection
import Schemata.Modules.Specifier

/-!
The command `init`, which writes a first configuration: one entry for the file in which a project is
most likely to keep its types.
-/
namespace Schemata.Commands

open Files

/-- Where types are looked for, the likeliest place first. -/
def likelyInputs : List String :=
  ["src/types.ts", "src/types/index.ts", "types.ts", "src/index.ts"]

def starterConfig (input : String) : Config :=
  ⟨[{ input, output := some (Modules.importSpecifier input ++ ".zod.ts") }]⟩

variable {m : Type → Type} [Monad m] [Access m]

/-- The first of some files that is there, or else `default`. -/
def firstFile (root default : String) : List String → m String
  | [] => pure default
  | file :: files => do
    if ← Access.isFile (Config.Entry.resolve root file) then pure file
    else firstFile root default files

/-- Writes a first configuration. One that is there is kept, unless `overwrite` allows otherwise:
there is nobody to ask. -/
def init (root : String) (verbose overwrite : Bool) : m Output := do
  let file := configPath root
  if (← Access.holds file) && !overwrite then
    pure (.refused "init" (Config.fileName ++
      " already exists (pass --yes to overwrite): IO error: not a terminal"))
  else
    let input ← firstFile root "src/types.ts" likelyInputs
    match ← Access.write file ((starterConfig input).print ++ "\n") with
    | .error failure =>
      pure (.refused "init" ("failed to write " ++ file ++ ": " ++ failure.message))
    | .ok () =>
      pure { stderr := if verbose then
        Output.line "init" ("wrote " ++ file ++ " for input " ++ input) else "" }

end Schemata.Commands
