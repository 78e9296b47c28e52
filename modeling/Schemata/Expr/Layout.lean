import Schemata.Expr.Basic
import Schemata.Text.Identifier
import Schemata.Text.Quoted

/-!
The text of an expression. Objects whose values are all truth values (key masks) stay on one
line; other objects put each field on a line of its own, two spaces deeper than the object.
-/
namespace Schemata.Expr

open Text

/-- Two spaces for each level of nesting. -/
def indent (depth : Nat) : List Char := List.replicate (2 * depth) ' '

/-- A property name: bare where it can be, else quoted. -/
def layoutKey (key : String) : List Char :=
  if isIdentifier key then key.toList else Quoted.encode key.toList

def isBool : Expr → Bool
  | .bool _ => true
  | _ => false

/-- Whether an object selects keys: every value is a truth value. -/
def isMask (fields : List (String × Expr)) : Bool := fields.all fun field => isBool field.2

def layoutBool (value : Bool) : List Char := if value then "true".toList else "false".toList

mutual

/-- The text of an expression that starts on a line of nesting `depth`. -/
def layout (depth : Nat) : Expr → List Char
  | .zod method args =>
    namespaceName.toList ++ '.' :: (method.toList ++ '(' :: (layoutList depth args ++ [')']))
  | .call target method args =>
    layout depth target ++ '.' :: (method.toList ++ '(' :: (layoutList depth args ++ [')']))
  | .member target property =>
    layout depth target ++
      (if isIdentifier property then '.' :: property.toList
       else '[' :: (Quoted.encode property.toList ++ [']']))
  | .ident text | .number text | .raw text => text.toList
  | .str value => Quoted.encode value.toList
  | .bool value => layoutBool value
  | .array items => '[' :: (layoutList depth items ++ [']'])
  | .object fields =>
    if fields.isEmpty then ['{', '}']
    else if isMask fields then '{' :: ' ' :: (layoutMask depth fields ++ [' ', '}'])
    else '{' :: '\n' :: (layoutFields (depth + 1) fields ++ (indent depth ++ ['}']))
  | .arrow body => "() => ".toList ++ layout depth body

/-- Items set apart by a comma and a space. -/
def layoutList (depth : Nat) : List Expr → List Char
  | [] => []
  | [e] => layout depth e
  | e :: es => layout depth e ++ ',' :: ' ' :: layoutList depth es

/-- Fields on one line. -/
def layoutMask (depth : Nat) : List (String × Expr) → List Char
  | [] => []
  | [(key, e)] => layoutKey key ++ ':' :: ' ' :: layout depth e
  | (key, e) :: es =>
    layoutKey key ++ ':' :: ' ' :: (layout depth e ++ ',' :: ' ' :: layoutMask depth es)

/-- Fields on lines of their own, each closed by a comma. -/
def layoutFields (depth : Nat) : List (String × Expr) → List Char
  | [] => []
  | (key, e) :: es =>
    indent depth ++ (layoutKey key ++ ':' :: ' ' ::
      (layout depth e ++ ',' :: '\n' :: layoutFields depth es))

end

/-- The text of an expression at the start of a line. -/
def render (e : Expr) : String := String.ofList (layout 0 e)

end Schemata.Expr
