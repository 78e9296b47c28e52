import Schemata.Report.Basic

/-!
Reports as JSON.
-/
namespace Schemata.Report

open Json Resolution

def Status.word : Status → String
  | generated => "generated"
  | unchanged => "unchanged"
  | failed => "failed"

def causeMembers : Cause → List (String × Value)
  | .cycle members => [("kind", .string "cycle"), ("members", .ofStrings members)]
  | .missing names => [("kind", .string "missing_dependency"), ("missing", .ofStrings names)]
  | .blocked names => [("kind", .string "blocked"), ("by", .ofStrings names)]
  | .starved => [("kind", .string "starved")]

def findingJson (f : Finding) : Value :=
  .object ([("var_name", .string f.var), ("type_name", .string f.type)] ++ causeMembers f.cause)

def findingsJson (findings : List Finding) : Value :=
  .object [("entries", .array (findings.map findingJson))]

def EntryReport.toJson (r : EntryReport) : Value :=
  .object [
    ("name", .string r.name),
    ("input", .string r.input),
    ("output", .ofOption r.output),
    ("with_test", .ofOption r.assertions),
    ("status", .string r.status.word),
    ("declarations", .ofNat r.declarations),
    ("validators", .ofStrings r.validators),
    ("deferred", .ofStrings r.deferred),
    ("has_circular_dependencies", .bool r.hasCircularDependencies),
    ("errors", .ofStrings r.errors),
    ("unresolved", findingsJson r.unresolved),
    ("failure", .ofOption r.failure)]

/-- A report of a command on its entries. -/
def envelope (command : String) (entries : List Value) : Value :=
  .object [("version", .string version), ("command", .string command), ("entries", .array entries)]

def GenerateReport.toJson (r : GenerateReport) : Value :=
  envelope r.command (r.entries.map EntryReport.toJson)

def ListEntry.toJson (e : ListEntry) : Value :=
  .object [
    ("name", .string e.name),
    ("input", .string e.input),
    ("output", .ofOption e.output),
    ("with_test", .ofOption e.assertions),
    ("max_run", .ofNat e.maxRounds.toNat)]

def ListReport.toJson (r : ListReport) : Value := envelope "list" (r.entries.map ListEntry.toJson)

end Schemata.Report
