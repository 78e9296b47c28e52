import Schemata.Expr.Basic

/-!
A deferred validator is known only by the type that it checks, so its fields cannot be looked up.
`Expr.eraseLookups` replaces each `x.shape.key` with a deferred `x` by the schema that accepts
everything, and leaves all else alone.
-/
namespace Schemata.Expr

/-- The property under which an object schema keeps its fields. -/
def shapeName : String := "shape"

/-- The validator whose field the expression `target.key` looks up, if it does. -/
def lookupTarget? : Expr → Option String
  | .member (.ident name) property => if property = shapeName then some name else none
  | _ => none

/-- Whether `target.key` looks up a field of a deferred validator. -/
def isDeferredLookup (deferred : String → Bool) (target : Expr) : Bool :=
  (lookupTarget? target).any deferred

mutual

def eraseLookups (deferred : String → Bool) : Expr → Expr
  | .member target property =>
    if isDeferredLookup deferred target then anything
    else .member (eraseLookups deferred target) property
  | .zod method args => .zod method (eraseAll deferred args)
  | .call target method args =>
    .call (eraseLookups deferred target) method (eraseAll deferred args)
  | .object fields => .object (eraseFields deferred fields)
  | .array items => .array (eraseAll deferred items)
  | .arrow body => .arrow (eraseLookups deferred body)
  | .ident name => .ident name
  | .str value => .str value
  | .number text => .number text
  | .bool value => .bool value
  | .raw text => .raw text

def eraseAll (deferred : String → Bool) : List Expr → List Expr
  | [] => []
  | e :: es => eraseLookups deferred e :: eraseAll deferred es

def eraseFields (deferred : String → Bool) : List (String × Expr) → List (String × Expr)
  | [] => []
  | (key, e) :: es => (key, eraseLookups deferred e) :: eraseFields deferred es

end

end Schemata.Expr
