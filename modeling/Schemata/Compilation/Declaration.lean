import Schemata.Compilation.TypeExpr
import Schemata.Resolution.Candidate

/-!
The candidate of a declaration. No other declaration is looked at: the dependencies are read back
from the finished validator.
-/
namespace Schemata.Compilation

open TypeScript DocComment

structure Options where
  validatorName : String → String
  /-- The name by which the validators of other types are referred to. -/
  dependencyName : String → String
  keepComments : Bool := false
  ignoreTags : Bool := false

def Options.context (options : Options) (d : Declaration) : Context :=
  ⟨options.dependencyName, d.typeParameters, options.ignoreTags⟩

/-- An object with these fields beside those of the interfaces it extends. -/
def extending (bases : List Expr) (fields : List (String × Expr)) : Expr :=
  match bases with
  | [] => .zod "object" [.object fields]
  | base :: others =>
    .call (others.foldl (fun acc other => .call acc "extend" [.member other "shape"]) base)
      "extend" [.object fields]

/-- The validator of what stands under a declared name, without the declaration's own tags. -/
def compileBody (ctx : Context) (name : String) : Body → Expr
  | .alias type => compile ctx type
  | .interface bases members =>
    let object := extending (compileAll ctx bases) (compileFields ctx members)
    match compileIndex ctx members with
    | some value => .call object "catchall" [value]
    | none => object
  | .enum => .zod "nativeEnum" [.raw name]

def compileDeclaration (options : Options) (d : Declaration) : Expr :=
  field (options.context d) false d.doc (compileBody (options.context d) d.name d.body)

def needsValue : Body → Bool
  | .enum => true
  | _ => false

def candidate (options : Options) (d : Declaration) : Candidate :=
  let init := compileDeclaration options d
  let var := options.validatorName d.name
  { type := d.name
    var
    statement := { name := var, init, comment := if options.keepComments then d.doc else none }
    dependencies := init.identifiers
    needsValue := needsValue d.body
    parameters := d.arity }

end Schemata.Compilation
