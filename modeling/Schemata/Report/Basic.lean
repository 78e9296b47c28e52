import Schemata.Json.Printer
import Schemata.Resolution.Diagnosis

/-!
Reports of commands: what became of each entry, and which entries are configured.
-/
namespace Schemata.Report

open Resolution

def version : String := "0.4.0"

inductive Status where
  /-- The modules were written or printed. -/
  | generated
  /-- The input is as it was; nothing was written. -/
  | unchanged
  /-- Reading, parsing or writing failed. -/
  | failed
  deriving DecidableEq, Repr

structure EntryReport where
  name : String
  input : String
  output : Option String := none
  assertions : Option String := none
  status : Status
  declarations : Nat := 0
  validators : List String := []
  /-- The types whose validators were deferred. -/
  deferred : List String := []
  hasCircularDependencies : Bool := false
  errors : List String := []
  unresolved : List Finding := []
  failure : Option String := none
  deriving DecidableEq, Repr

namespace EntryReport

def failed (name input failure : String) : EntryReport :=
  { name, input, status := .failed, failure := some failure }

def isFailed (r : EntryReport) : Bool := r.status == .failed

def isUnresolved (r : EntryReport) : Bool := !r.errors.isEmpty

end EntryReport

structure GenerateReport where
  command : String
  entries : List EntryReport
  deriving DecidableEq, Repr

namespace GenerateReport

def hasFailures (r : GenerateReport) : Bool := r.entries.any (·.isFailed)

def hasUnresolved (r : GenerateReport) : Bool := r.entries.any (·.isUnresolved)

end GenerateReport

structure ListEntry where
  name : String
  input : String
  output : Option String
  assertions : Option String
  maxRounds : UInt32
  deriving DecidableEq, Repr

structure ListReport where
  entries : List ListEntry
  deriving DecidableEq, Repr

end Schemata.Report
