/-!
JSON values. Numbers keep their spelling; objects keep the order of their members, and a key may
stand in them more than once.
-/
namespace Schemata.Json

inductive Value where
  | null
  | bool (value : Bool)
  | number (text : String)
  | string (value : String)
  | array (items : List Value)
  | object (members : List (String × Value))
  deriving BEq, Repr, Inhabited

namespace Value

def ofNat (n : Nat) : Value := .number (toString n)

def ofOption (value : Option String) : Value :=
  match value with
  | some s => .string s
  | none => .null

def ofStrings (values : List String) : Value := .array (values.map .string)

end Value

end Schemata.Json
