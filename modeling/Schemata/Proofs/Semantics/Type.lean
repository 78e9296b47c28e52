import Mathlib.Data.List.Nodup
import Schemata.Compilation.TypeExpr
import Schemata.Proofs.Semantics.Value
import Schemata.TypeScript.Lexeme

/-! The structural types and the values that they hold. A property holds what reading it may give,
so that one which may be left out also holds `undefined`. A name holds whatever it is taken to mean;
a type parameter may stand for anything. -/
namespace Schemata.Semantics

open TypeScript DocComment

/-- A name that is spelled without escapes. -/
def isPlainName (text : String) : Bool :=
  match text.toList with
  | [] => false
  | c :: rest => !c.isDigit && (c :: rest).all isNamePart

/-- The property that a key names by an identifier or by a string literal, either without
escapes. -/
def propertyName? : Key → Option String
  | .plain text => if isPlainName text then some text else none
  | .quoted literal => unquote? literal
  | .computed => none

def memberName? : Member → Option String
  | .property key _ _ _ => propertyName? key
  | _ => none

def propertyNames (members : List Member) : List String := members.filterMap memberName?

/-- The types with one argument, which all elements of an array are of. -/
def listNames : List String := ["Array", "ReadonlyArray"]

/-- The names that mean a type by themselves. -/
def builtInNames : List String := listNames ++ ["Date", "Function", "bigint", "undefined"]

def structuralKeywords : List Keyword :=
  [.any, .boolean, .never, .number, .string, .symbol, .unknown]

/-- Whether a comment says nothing about the values of what it documents. -/
def isPlainDoc (ignoreTags : Bool) (doc : Option String) : Bool :=
  ignoreTags || doc.all fun comment =>
    (Tag.ofComment comment).all fun tag => (Refinement.ofTag? tag).isNone

section Fragment

variable (ctx : Compilation.Context) (scope : List String)

/-- A type parameter, a name of the scope, or one of the two built-in names for primitive types. -/
def isStructuralName (name : String) : Bool :=
  ctx.parameters.contains name || name == "bigint" || name == "undefined" ||
    (scope.contains name && !builtInNames.contains name)

theorem isStructuralName_iff {name : String} : isStructuralName ctx scope name = true ↔
    name ∈ ctx.parameters ∨ name = "bigint" ∨ name = "undefined" ∨
      (name ∈ scope ∧ name ∉ builtInNames) := by
  simp only [isStructuralName, Bool.or_eq_true, Bool.and_eq_true, Bool.not_eq_true',
    List.contains_eq_mem, decide_eq_true_eq, decide_eq_false_iff_not, beq_iff_eq, or_assoc]

mutual

/-- Types of primitives and literals, arrays, tuples of required elements, unions, intersections,
objects of properties with different names, and names of the scope. -/
def isStructural : TypeExpr → Bool
  | .keyword k => structuralKeywords.contains k
  | .null | .undefined | .boolLiteral _ | .stringLiteral _ | .numberLiteral _ => true
  | .ref name => isStructuralName ctx scope name
  | .apply name [element] => listNames.contains name && isStructural element
  | .apply _ _ => false
  | .array type | .readonly type | .paren type => isStructural type
  | .tuple elements => areRequired elements
  | .union members | .inter members => areStructural members
  | .object members => areProperties members && decide (propertyNames members).Nodup
  | .function _ | .lookup _ _ | .template | .other => false

def areStructural : List TypeExpr → Bool
  | [] => true
  | t :: ts => isStructural t && areStructural ts

def areRequired : List TupleElement → Bool
  | [] => true
  | .required none type :: es => isStructural type && areRequired es
  | _ :: _ => false

def areProperties : List Member → Bool
  | [] => true
  | .property key _ type doc :: ms =>
    (propertyName? key).isSome && isPlainDoc ctx.ignoreTags doc && isStructuralOr type &&
      areProperties ms
  | _ :: _ => false

def isStructuralOr : Option TypeExpr → Bool
  | some type => isStructural type
  | none => true

end

end Fragment

def keywordHolds : Keyword → Value → Prop
  | .any, _ | .unknown, _ => True
  | .boolean, v => v.kind = .boolean
  | .number, v => v.kind = .number
  | .string, v => v.kind = .string
  | .symbol, v => v.kind = .symbol
  | .never, _ | .object, _ | .uniqueSymbol, _ | .void, _ => False

def arrayHolds (element : Value → Prop) (v : Value) : Prop :=
  ∃ items, v = .array items ∧ ∀ item ∈ items, element item

section Values

variable (literals : Literals) (types : String → Value → Prop) (parameters : List String)

def nameHolds (name : String) (v : Value) : Prop :=
  if name ∈ parameters then True
  else if name = "bigint" then v.kind = .bigint
  else if name = "undefined" then v = .undefined
  else types name v

mutual

/-- The values of a structural type; other types hold nothing here. -/
def Holds : TypeExpr → Value → Prop
  | .keyword k => keywordHolds k
  | .null => fun v => v = .null
  | .undefined => fun v => v = .undefined
  | .boolLiteral value => fun v => v = .boolean value
  | .stringLiteral literal => fun v => v = literals.value literal
  | .numberLiteral text => fun v => v = literals.value text
  | .ref name => nameHolds types parameters name
  | .apply _ [element] => arrayHolds (Holds element)
  | .apply _ _ => fun _ => False
  | .array type => arrayHolds (Holds type)
  | .readonly type => Holds type
  | .paren type => Holds type
  | .tuple elements => fun v => ∃ items, v = .array items ∧
    List.Forall₂ (fun holds item => holds item) (elementHolds elements) items
  | .union members => fun v => ∃ holds ∈ holdsEach members, holds v
  | .inter members => fun v => ∀ holds ∈ holdsEach members, holds v
  | .object members => fun v => ∃ properties, v = .object properties ∧
    ∀ field ∈ propertyHolds members, field.2 (Value.read properties field.1)
  | .function _ | .lookup _ _ | .template | .other => fun _ => False

def holdsEach : List TypeExpr → List (Value → Prop)
  | [] => []
  | t :: ts => Holds t :: holdsEach ts

def elementHolds : List TupleElement → List (Value → Prop)
  | [] => []
  | .required _ type :: es => Holds type :: elementHolds es
  | _ :: es => elementHolds es

def propertyHolds : List Member → List (String × (Value → Prop))
  | [] => []
  | .property key isOptional type _ :: ms =>
    match propertyName? key with
    | some name =>
      (name, fun v => (isOptional = true ∧ v = .undefined) ∨ typeHolds type v) :: propertyHolds ms
    | none => propertyHolds ms
  | _ :: ms => propertyHolds ms

/-- The values of a type that may be left out. -/
def typeHolds : Option TypeExpr → Value → Prop
  | some type => Holds type
  | none => fun _ => True

end

theorem propertyHolds_names (members : List Member) :
    (propertyHolds literals types parameters members).map (·.1) = propertyNames members := by
  induction members with
  | nil => rfl
  | cons member rest ih =>
    cases member with
    | property key isOptional type doc =>
      rw [propertyHolds, propertyNames, List.filterMap_cons, memberName?]
      cases propertyName? key with
      | none => exact ih
      | some name => exact congrArg (name :: ·) ih
    | method key isOptional signature => exact ih
    | index value => exact ih
    | mapped => exact ih

end Values

theorem name?_of_propertyName? {key : Key} {name : String}
    (named : propertyName? key = some name) : key.name? = some name := by
  cases key with
  | plain text =>
    rw [propertyName?, Option.ite_none_right_eq_some] at named
    exact named.2
  | quoted literal => exact named
  | computed => contradiction

end Schemata.Semantics
