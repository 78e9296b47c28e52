import Schemata.Expr.Layout

/-!
One constant of a validator module. A statement whose validator mentions itself is deferred: its
body moves under `z.lazy`, and the constant is ascribed the schema type of what it checks.
-/
namespace Schemata

structure Statement where
  name : String
  exported : Bool := true
  /-- The type that the constant is declared with. -/
  ascription : Option String := none
  init : Expr
  /-- A comment that stands above the constant as it is. -/
  comment : Option String := none
  deriving BEq, Repr, Inhabited

namespace Statement

/-- Whether the body is evaluated lazily. -/
def isDeferred (s : Statement) : Bool := s.init.isZod "lazy"

/-- The type of a deferred validator for the type `reference`. -/
def deferredAscription (reference : String) : String :=
  Expr.namespaceName ++ ".ZodSchema<" ++ reference ++ ">"

/-- Puts the body under `z.lazy`, once, and ascribes the schema type of `reference`. -/
def defer (s : Statement) (reference : String) : Statement :=
  { s with
    init := if s.isDeferred then s.init else .zod "lazy" [.arrow s.init]
    ascription := some (deferredAscription reference) }

/-- The constant's declaration, below its comment. -/
def render (s : Statement) : String :=
  (match s.comment with
    | some comment => comment ++ "\n"
    | none => "") ++
  (if s.exported then "export " else "") ++
  "const " ++ s.name ++
  (match s.ascription with
    | some type => ": " ++ type
    | none => "") ++
  " = " ++ s.init.render ++ ";"

end Statement

end Schemata
