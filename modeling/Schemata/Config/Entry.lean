import Schemata.Glob.NameFilter
import Schemata.Json.Printer
import Schemata.Naming
import Schemata.Path.Basic

/-!
Configuration entries: what one input is generated from and into, and with which options.
-/
namespace Schemata.Config

def defaultMaxRounds : UInt32 := 10

structure Entry where
  name : Option String := none
  input : String
  output : Option String := none
  assertions : Option String := none
  maxRounds : UInt32 := defaultMaxRounds
  keepComments : Bool := false
  ignoreTags : Bool := false
  inclusions : List String := []
  exclusions : List String := []
  naming : Naming.Scheme := Naming.standard
  deriving DecidableEq, Repr, Inhabited

namespace Entry

def label (e : Entry) : String := e.name.getD e.input

def nameFilter (e : Entry) : Except Glob.InvalidPattern Glob.NameFilter :=
  Glob.NameFilter.ofPatterns e.inclusions e.exclusions

/-- A path of the entry as seen from a root directory. -/
def resolve (root : String) (path : String) : String :=
  String.ofList (Path.join root.toList path.toList)

def inputPath (root : String) (e : Entry) : String := resolve root e.input

def outputPath (root : String) (e : Entry) : Option String := e.output.map (resolve root)

def assertionsPath (root : String) (e : Entry) : Option String := e.assertions.map (resolve root)

open Json in
/-- The fields of an entry. Absent names, absent files and empty pattern lists are left out. -/
def toJson (e : Entry) : Value :=
  let text (key : String) (value : Option String) : List (String × Value) :=
    (value.map fun s => (key, Value.string s)).toList
  let patterns (key : String) (values : List String) : List (String × Value) :=
    if values.isEmpty then [] else [(key, Value.ofStrings values)]
  .object (
    text "name" e.name ++
    [("input", .string e.input)] ++
    text "output" e.output ++
    text "withTest" e.assertions ++
    [("maxRun", .ofNat e.maxRounds.toNat),
      ("keepComments", .bool e.keepComments),
      ("skipParseJSDoc", .bool e.ignoreTags)] ++
    patterns "include" e.inclusions ++
    patterns "exclude" e.exclusions ++
    [("schemaNamePrefix", .string e.naming.before),
      ("schemaNameSuffix", .string e.naming.after)])

end Entry

end Schemata.Config
