import Schemata.Report.Basic

/-!
Reports for readers: a line for each entry, lines for what it left unresolved, and a closing count
where anything failed or stayed unresolved.
-/
namespace Schemata.Report

open Resolution

def describe (f : Finding) : String :=
  f.var ++ ": " ++
    match f.cause with
    | .cycle members => "cycle through " ++ " -> ".intercalate members
    | .missing names => "no declaration for " ++ ", ".intercalate names
    | .blocked names => "waits on " ++ ", ".intercalate names
    | .starved => "round limit reached (raise maxRun)"

/-- The lines on a generated entry. -/
def EntryReport.summary (r : EntryReport) : String :=
  r.name ++ ": " ++ r.input ++ " -> " ++ r.output.getD "stdout" ++ " (" ++
    toString r.validators.length ++ " of " ++ toString r.declarations ++ " validator(s)" ++
    (if r.deferred.isEmpty then "" else ", deferred: " ++ ", ".intercalate r.deferred) ++ ")\n" ++
    (match r.assertions with
      | some file => "  test module -> " ++ file ++ "\n"
      | none => "") ++
    String.join (r.unresolved.map fun f => "  unresolved " ++ describe f ++ "\n")

def EntryReport.human (r : EntryReport) : String :=
  match r.status with
  | .failed => r.name ++ ": " ++ r.input ++ " failed: " ++ r.failure.getD "unknown error" ++ "\n"
  | .unchanged => r.name ++ ": " ++ r.input ++ " unchanged\n"
  | .generated => r.summary

namespace GenerateReport

def failedCount (r : GenerateReport) : Nat := (r.entries.filter (·.isFailed)).length

def unresolvedCount (r : GenerateReport) : Nat :=
  r.entries.foldl (fun n e => n + e.unresolved.length) 0

def closing (r : GenerateReport) : String :=
  if r.failedCount = 0 ∧ r.unresolvedCount = 0 then ""
  else "\n" ++ toString r.failedCount ++ " failed, " ++ toString r.unresolvedCount ++
    " unresolved validator(s) in " ++ toString r.entries.length ++ " entr" ++
    (if r.entries.length = 1 then "y" else "ies") ++ "\n"

def human (r : GenerateReport) : String := String.join (r.entries.map (·.human)) ++ r.closing

end GenerateReport

def ListEntry.human (e : ListEntry) : String :=
  e.name ++ "\n  input:  " ++ e.input ++ "\n  output: " ++ e.output.getD "(stdout)" ++ "\n" ++
    (match e.assertions with
      | some file => "  test:   " ++ file ++ "\n"
      | none => "") ++
    "  max run: " ++ toString e.maxRounds ++ "\n"

def ListReport.human (r : ListReport) : String :=
  if r.entries.isEmpty then "no entries configured\n"
  else String.join (r.entries.map (·.human))

end Schemata.Report
