/-!
Import specifiers of modules: the path of a file without its extension.
-/
namespace Schemata.Modules

/-- A text without an end, if it has that end. -/
def dropEnd? (ending text : List Char) : Option (List Char) :=
  if ending.reverse.isPrefixOf text.reverse then some (text.take (text.length - ending.length))
  else none

/-- A path without its extension, if that is one of a source file. -/
def withoutExtension (path : List Char) : List Char :=
  match dropEnd? ".tsx".toList path with
  | some stem => stem
  | none => (dropEnd? ".ts".toList path).getD path

def importSpecifier (path : String) : String := String.ofList (withoutExtension path.toList)

/-- The first line of every generated module. -/
def header : String := "// Generated by zodgen\n"

def schemaImport : String := "import \x7b z \x7d from \"zod\";\n"

end Schemata.Modules
