import Schemata.Modules.Specifier
import Schemata.Resolution.Placement

/-!
The module of type assertions, which is checked and never run: each validator's inferred type and
its declaration must be assignable to each other.
-/
namespace Schemata.Modules

open Resolution Text

def assertion (name : String) (placed : Placed) : String :=
  let inferred := name ++ "InferredType"
  let declared := "spec." ++ placed.reference
  "\nexport type " ++ inferred ++ " = z.infer<typeof generated." ++ name ++ ">;\n" ++
    "expectType<" ++ declared ++ ">(\x7b\x7d as " ++ inferred ++ ");\n" ++
    "expectType<" ++ inferred ++ ">(\x7b\x7d as " ++ declared ++ ");\n"

/-- The text of the module for validators and declarations in these files. -/
def assertions (outcome : Outcome) (source validatorsPath : String) : String :=
  header ++ schemaImport ++ "\n" ++
    "import * as spec from " ++ Quoted.quote (importSpecifier source) ++ ";\n" ++
    "import * as generated from " ++ Quoted.quote (importSpecifier validatorsPath) ++ ";\n\n" ++
    "// eslint-disable-next-line @typescript-eslint/no-unused-vars\n" ++
    "function expectType<T>(_: T) \x7b\n  /* noop */\n\x7d\n" ++
    String.join (outcome.placed.map fun p => assertion p.1 p.2)

end Schemata.Modules
