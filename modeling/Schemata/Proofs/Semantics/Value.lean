import Schemata.TypeScript.Syntax

/-! Values at run time, as far as types and validators tell them apart. What a literal denotes is
left to the language that reads it, in which both types and validators are written. -/
namespace Schemata.Semantics

/-- What `typeof` and the tests for `null` and for arrays tell. -/
inductive Kind where
  | undefined
  | null
  | boolean
  | number
  | bigint
  | string
  | symbol
  | array
  | object
  /-- Functions and objects of a class of their own, such as dates. -/
  | other
  deriving DecidableEq, Repr

inductive Value where
  | undefined
  | null
  | boolean (value : Bool)
  | number (value : Float)
  | bigint (value : Int)
  | string (text : String)
  | symbol (identity : Nat)
  | array (items : List Value)
  | object (properties : List (String × Value))
  | other (identity : Nat)

namespace Value

def kind : Value → Kind
  | undefined => .undefined
  | null => .null
  | boolean _ => .boolean
  | number _ => .number
  | bigint _ => .bigint
  | string _ => .string
  | symbol _ => .symbol
  | array _ => .array
  | object _ => .object
  | other _ => .other

/-- A property as it is read: `undefined` where there is none. -/
def read (properties : List (String × Value)) (key : String) : Value :=
  (properties.lookup key).getD .undefined

end Value

/-- The values that literals denote. -/
structure Literals where
  /-- The value of a literal as it is spelled. -/
  value : String → Value
  /-- A string literal without escapes denotes the text between its quotes. -/
  quoted : ∀ literal text, TypeScript.unquote? literal = some text → value literal = .string text

end Schemata.Semantics
