import Schemata.Config.Decoding
import Schemata.Json.Reader

/-!
Configurations: the entries of a project. Where there are several, each has a name of its own, so
that a name selects at most one of them.
-/
namespace Schemata

structure Config where
  entries : List Config.Entry := []
  deriving DecidableEq, Repr, Inhabited

namespace Config

def fileName : String := "zodgen.config.json"

inductive Malformed where
  | text (failure : Json.Failure)
  /-- The value is neither an entry nor a list of entries. -/
  | shape
  deriving DecidableEq, Repr

inductive Error where
  | malformed (source : List Char) (cause : Malformed)
  /-- One of several entries has no name. -/
  | unnamed (input : String)
  | duplicate (name : String)
  deriving DecidableEq, Repr

def Malformed.message (source : List Char) : Malformed → String
  | text failure => failure.message source
  | shape => "data did not match any variant of untagged enum RawConfig"

def Error.message (file : String) : Error → String
  | malformed source cause => "failed to parse " ++ file ++ ": " ++ cause.message source
  | unnamed input =>
    "entries in a multi-entry config must be named (entry for " ++ input ++ " has no name)"
  | duplicate name => "duplicate config entry name: " ++ name

/-- Checks entries in order against the names seen before. -/
def checkNames (seen : List String) : List Entry → Except Error Unit
  | [] => .ok ()
  | e :: es =>
    match e.name with
    | none => .error (.unnamed e.input)
    | some name => if name ∈ seen then .error (.duplicate name) else checkNames (name :: seen) es

/-- A list of entries as a configuration. -/
def ofEntries (entries : List Entry) : Except Error Config :=
  if 1 < entries.length then (checkNames [] entries).map fun _ => ⟨entries⟩ else .ok ⟨entries⟩

/-- The entries that a text holds. The value is decoded before the text behind it is looked at. -/
def readEntries (text : List Char) : Except Malformed (List Entry) :=
  match Json.readValue Json.depthLimit text with
  | .error failure => .error (.text failure)
  | .ok (value, rest) =>
    match entries? value with
    | none => .error .shape
    | some entries => (Json.checkEnd rest).mapError Malformed.text |>.map fun _ => entries

def parse (text : String) : Except Error Config := do
  let entries ← (readEntries text.toList).mapError (Error.malformed text.toList)
  ofEntries entries

/-- One entry stands alone, any other number of them in a list. -/
def toJson (c : Config) : Json.Value :=
  match c.entries with
  | [e] => e.toJson
  | entries => .array (entries.map Entry.toJson)

def print (c : Config) : String := c.toJson.pretty

def find? (c : Config) (name : String) : Option Entry :=
  c.entries.find? fun e => e.name == some name

end Config

end Schemata
