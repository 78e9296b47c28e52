import Schemata.Modules.Specifier
import Schemata.Resolution.Placement

/-!
The module of validators: the imports that the statements need, then the statements in the order in
which they were placed.
-/
namespace Schemata.Modules

open Resolution Text

/-- The imported declarations, sorted, each once. -/
def importedNames (outcome : Outcome) : List String :=
  sortedNames (outcome.typeImports ++ outcome.valueImports)

/-- The import of declarations from `source`; without any there is none. -/
def declarationImport (names : List String) (source : String) : String :=
  if names.isEmpty then ""
  else "import \x7b " ++ ", ".intercalate names ++ " \x7d from " ++
    Quoted.quote (importSpecifier source) ++ ";\n"

/-- The text of the module, which imports declarations from `source`. -/
def validators (outcome : Outcome) (source : String) : String :=
  header ++ schemaImport ++ declarationImport (importedNames outcome) source ++
    String.join (outcome.placed.map fun p => "\n" ++ p.2.statement.render ++ "\n")

end Schemata.Modules
