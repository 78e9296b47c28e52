import Schemata.Config.Entry

/-!
Entries from JSON values. An entry is an object, whose members may come in any order and whose
unknown members are ignored, or a list of the fields in order, of which those behind the last one
given take their defaults. No known member may come twice.
-/
namespace Schemata.Config

open Json

namespace Field

def text? : Value → Option String
  | .string s => some s
  | _ => none

/-- A text or nothing. -/
def optional? : Value → Option (Option String)
  | .null => some none
  | .string s => some (some s)
  | _ => none

def flag? : Value → Option Bool
  | .bool b => some b
  | _ => none

/-- The number that a numeral without sign, fraction and exponent stands for. -/
def natural? (text : List Char) : Option Nat :=
  if text ≠ [] ∧ text.all Char.isDigit then
    some (text.foldl (fun n c => 10 * n + (c.toNat - 48)) 0)
  else none

def count? : Value → Option UInt32
  | .number text =>
    (natural? text.toList).bind fun n => if n < UInt32.size then some (UInt32.ofNat n) else none
  | _ => none

def texts? : Value → Option (List String)
  | .array items => items.mapM text?
  | _ => none

end Field

/-- The members of an entry, in the order in which a list gives them. -/
def fieldNames : List String :=
  ["name", "input", "output", "withTest", "maxRun", "keepComments", "skipParseJSDoc", "include",
    "exclude", "schemaNamePrefix", "schemaNameSuffix"]

/-- Reads a field that may be left out. -/
def orDefault {α : Type} (read : Value → Option α) (default : α) : Option Value → Option α
  | some v => read v
  | none => some default

def Entry.ofFields (field : String → Option Value) : Option Entry := do
  let name ← orDefault Field.optional? none (field "name")
  let input ← (field "input").bind Field.text?
  let output ← orDefault Field.optional? none (field "output")
  let assertions ← orDefault Field.optional? none (field "withTest")
  let maxRounds ← orDefault Field.count? defaultMaxRounds (field "maxRun")
  let keepComments ← orDefault Field.flag? false (field "keepComments")
  let ignoreTags ← orDefault Field.flag? false (field "skipParseJSDoc")
  let inclusions ← orDefault Field.texts? [] (field "include")
  let exclusions ← orDefault Field.texts? [] (field "exclude")
  let before ← orDefault Field.text? Naming.standard.before (field "schemaNamePrefix")
  let after ← orDefault Field.text? Naming.standard.after (field "schemaNameSuffix")
  some ⟨name, input, output, assertions, maxRounds, keepComments, ignoreTags, inclusions,
    exclusions, ⟨before, after⟩⟩

/-- Whether some known member comes more than once. -/
def repeatsField (members : List (String × Value)) : Bool :=
  fieldNames.any fun name => 1 < (members.filter (·.1 == name)).length

def Entry.ofJson? : Value → Option Entry
  | .object members =>
    if repeatsField members then none else Entry.ofFields fun name => members.lookup name
  | .array items =>
    if fieldNames.length < items.length then none
    else Entry.ofFields fun name => (fieldNames.zip items).lookup name
  | _ => none

/-- Entries in a list, or one entry that stands alone. -/
def entries? (value : Value) : Option (List Entry) :=
  let many :=
    match value with
    | .array items => items.mapM Entry.ofJson?
    | _ => none
  many <|> (Entry.ofJson? value).map fun e => [e]

end Schemata.Config
