import Schemata.Json.Value
import Schemata.Text.Quoted

/-!
The text of a JSON value: on one line without blanks, or spread over lines with two spaces for
each level of nesting, where only empty arrays and objects stay on one line.
-/
namespace Schemata.Json.Value

open Text

def literal (value : Bool) : List Char := if value then "true".toList else "false".toList

mutual

/-- The text without blanks. -/
def compactChars : Value → List Char
  | .null => "null".toList
  | .bool value => literal value
  | .number text => text.toList
  | .string value => Quoted.encode value.toList
  | .array items => '[' :: (compactItems items ++ [']'])
  | .object members => '{' :: (compactMembers members ++ ['}'])

def compactItems : List Value → List Char
  | [] => []
  | [v] => compactChars v
  | v :: vs => compactChars v ++ ',' :: compactItems vs

def compactMembers : List (String × Value) → List Char
  | [] => []
  | [(key, v)] => Quoted.encode key.toList ++ ':' :: compactChars v
  | (key, v) :: vs =>
    Quoted.encode key.toList ++ ':' :: (compactChars v ++ ',' :: compactMembers vs)

end

/-- A line break and the blanks in front of the next line. -/
def newline (depth : Nat) : List Char := '\n' :: List.replicate (2 * depth) ' '

mutual

/-- The text over several lines of a value that stands at nesting `depth`. -/
def prettyChars (depth : Nat) : Value → List Char
  | .null => "null".toList
  | .bool value => literal value
  | .number text => text.toList
  | .string value => Quoted.encode value.toList
  | .array [] => ['[', ']']
  | .array (v :: vs) => '[' :: (prettyItems (depth + 1) (v :: vs) ++ newline depth ++ [']'])
  | .object [] => ['{', '}']
  | .object (m :: ms) => '{' :: (prettyMembers (depth + 1) (m :: ms) ++ newline depth ++ ['}'])

def prettyItems (depth : Nat) : List Value → List Char
  | [] => []
  | [v] => newline depth ++ prettyChars depth v
  | v :: vs => newline depth ++ prettyChars depth v ++ ',' :: prettyItems depth vs

def prettyMembers (depth : Nat) : List (String × Value) → List Char
  | [] => []
  | [(key, v)] => newline depth ++ Quoted.encode key.toList ++ ':' :: ' ' :: prettyChars depth v
  | (key, v) :: vs =>
    newline depth ++ Quoted.encode key.toList ++
      ':' :: ' ' :: (prettyChars depth v ++ ',' :: prettyMembers depth vs)

end

def compact (v : Value) : String := String.ofList (compactChars v)

def pretty (v : Value) : String := String.ofList (prettyChars 0 v)

end Schemata.Json.Value
