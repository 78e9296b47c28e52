import Schemata.TypeScript.Grammar.Basic

/-!
Types: operators by rank, then what stands between brackets, and at last names and literals.
Comments mean nothing, except that one hides the type of a rest element or the key of a lookup
that it stands in front of, and that one right above a property documents it.
-/
namespace Schemata.TypeScript.Grammar

open Parse

/-- The keywords that name no type of their own where a type is read. -/
def typeKeywords : List String :=
  ["abstract", "any", "boolean", "const", "false", "import", "infer", "keyof", "never", "new",
    "null", "number", "object", "readonly", "string", "symbol", "this", "true", "typeof",
    "undefined", "unique", "unknown", "void"]

def typeName : Parse String := nameBut typeKeywords

def keywordType : Parse TypeExpr := do
  let start ← word
  match ← anyName with
  | "any" => pure (.keyword .any)
  | "boolean" => pure (.keyword .boolean)
  | "never" => pure (.keyword .never)
  | "number" => pure (.keyword .number)
  | "object" => pure (.keyword .object)
  | "string" => pure (.keyword .string)
  | "symbol" => pure (.keyword .symbol)
  | "unknown" => pure (.keyword .unknown)
  | "void" => pure (.keyword .void)
  | "unique" => do
    keyword "symbol"
    pure (.keyword .uniqueSymbol)
  | "null" => pure .null
  | "undefined" => pure .undefined
  | "true" => pure (.boolLiteral true)
  | "false" => pure (.boolLiteral false)
  | "this" => pure .other
  | "const" => pure .other
  | _ => failAt start

/-- A number with a sign at choice, as it is spelled. -/
def numberType : Parse TypeExpr := do
  let start ← word
  skip (oneMark ["-", "+"])
  let _ ← number
  pure (.numberLiteral (String.ofList (start.textTo (← place))))

def typeArguments (g : Grammar) : Parse (List TypeExpr) := listed1 "<" ">" (g.type .closed)

/-- A name, with those of the namespaces in front and arguments behind. -/
def namedTypeBut (g : Grammar) (keywords : List String) : Parse TypeExpr := do
  let name ← nameBut keywords
  let inner ← many (do mark "."; anyName)
  let args ← optional (typeArguments g)
  match inner, args with
  | [], none => pure (.ref name)
  | [], some args => pure (.apply name args)
  | _ :: _, _ => pure .other

def typeParameter (g : Grammar) : Parse String := do
  let name ← or (keyword "const" *> anyName) anyName
  skip (do
    or (keyword "extends") (mark ":")
    discard (g.type .closed))
  skip (do
    markBut "=" ['>']
    discard (g.type .closed))
  pure name

def typeParameters (g : Grammar) : Parse (List String) := listed1 "<" ">" (typeParameter g)

def typeParametersOrNone (g : Grammar) : Parse (List String) := do
  pure ((← optional (typeParameters g)).getD [])

/-- A type behind a colon. -/
def ascribed (g : Grammar) (follow : Follow) : Parse TypeExpr := do
  sameStatement follow
  mark ":"
  g.type follow

def typePredicate (g : Grammar) (follow : Follow) : Parse Unit := do
  or (keyword "this") (discard typeName)
  keyword "is"
  discard (g.type follow)

/-- A statement on a parameter in place of a result. -/
def resultPredicate (g : Grammar) (follow : Follow) : Parse Unit :=
  or (do keyword "asserts"; or (typePredicate g follow) (discard anyName)) (typePredicate g follow)

/-- A result type or a predicate. -/
def resultType (g : Grammar) (follow : Follow) : Parse TypeExpr :=
  or (resultPredicate g follow *> pure .other) (do
    notAhead (keyword "asserts")
    g.type follow)

/-- The result of a signature behind a colon. -/
def signatureResult (g : Grammar) (follow : Follow) : Parse TypeExpr := do
  sameStatement follow
  mark ":"
  resultType g follow

def decorator (g : Grammar) : Parse Unit := do
  mark "@"
  or (do
      discard anyName
      discard (many (do mark "."; anyName)))
    (do
      mark "("
      g.expression .closed
      mark ")")
  skip (typeArguments g)
  skip (arguments g)

/-- A word that may stand in front of a name, and does so here. -/
def modifier (follow : Follow) (names : List String) : Parse Unit := do
  discard (oneKeyword names)
  sameStatement follow
  let next ← word
  match next.rest with
  | c :: _ =>
    if c == '"' || c == '\'' || c == '[' || c == '#' || c == '*' || c == '\x7b' || c.isDigit ||
        nameLength next.rest ≠ 0 then
      pure ()
    else fail
  | [] => fail

def accessWords : List String := ["public", "private", "protected"]

def parameter (g : Grammar) : Parse Parameter := do
  discard (many (decorator g))
  skip (modifier .closed accessWords)
  skip (modifier .closed ["override"])
  skip (modifier .closed ["readonly"])
  g.pattern
  let isOptional := (← optional (mark "?")).isSome
  let type ← optional (ascribed g .closed)
  skip (initializer g .closed)
  pure (.mk isOptional type)

def parameters (g : Grammar) : Parse (List Parameter) := listed "(" ")" (parameter g)

/-- Type parameters, parameters and a result behind a colon. -/
def callSignature (g : Grammar) (follow : Follow) : Parse Signature := do
  let generics ← typeParametersOrNone g
  let params ← parameters g
  let result ← optional (signatureResult g follow)
  pure (.mk generics params result)

/-- The keywords that name no first parameter where a type in parentheses could stand as well. -/
def openingKeywords : List String := ["abstract", "infer", "keyof", "never", "unique", "unknown"]

/-- The type of what takes parameters and gives a result. -/
def arrowType (g : Grammar) (follow : Follow) : Parse TypeExpr := do
  let generics ← typeParametersOrNone g
  let params ← parameters g
  mark "=>"
  let result ← resultType g follow
  pure (.function (.mk generics params (some result)))

def functionType (g : Grammar) (follow : Follow) : Parse TypeExpr := do
  notAhead (do
    mark "("
    oneKeyword openingKeywords)
  arrowType g follow

def constructorType (g : Grammar) (follow : Follow) : Parse TypeExpr := do
  skip (keyword "abstract")
  keyword "new"
  discard (arrowType g follow)
  pure .other

def memberKey (g : Grammar) : Parse Key :=
  oneOf [
    (do pure (.quoted (← stringLiteral))),
    (do pure (.plain (← number))),
    (do
      mark "["
      g.expression .closed
      mark "]"
      pure .computed),
    (do
      let start ← word
      mark "#"
      discard anyName
      pure (.plain (String.ofList (start.textTo (← place))))),
    (do pure (.plain (← anyName)))]

/-- An index over a type of keys, or over the members of a type. -/
def indexMember (g : Grammar) : Parse Member := do
  skip (do
    skip (oneMark ["-", "+"])
    keyword "readonly")
  mark "["
  let name ← anyName
  let isMapped ← or
    (do
      mark ":"
      discard (g.type .closed)
      pure false)
    (do
      if name == "" then fail
      keyword "in"
      discard (g.type .closed)
      skip (do
        keyword "as"
        discard (g.type .closed))
      pure true)
  mark "]"
  oneOf [mark ":", mark "?:", mark "-?:", mark "+?:"]
  let value ← g.type .type
  pure (if isMapped then .mapped else .index value)

/-- A constructor among the members of an object. -/
def constructorMember (g : Grammar) : Parse Unit := do
  skip (keyword "abstract")
  keyword "new"
  discard (typeParametersOrNone g)
  discard (parameters g)
  skip (ascribed g .type)

def methodMember (g : Grammar) : Parse Member := do
  skip (modifier .type accessWords)
  skip (modifier .type ["static"])
  skip (modifier .type ["override"])
  skip (modifier .type ["readonly"])
  skip (modifier .type ["async"])
  skip (or (modifier .type ["get", "set"]) (mark "*"))
  let key ← memberKey g
  let isOptional := (← optional (mark "?")).isSome
  sameStatement .type
  let signature ← callSignature g .type
  pure (.method key isOptional signature)

def propertyMember (g : Grammar) (doc : Option String) : Parse Member := do
  skip (modifier .type accessWords)
  skip (modifier .type ["static"])
  skip (modifier .type ["override"])
  skip (modifier .type ["readonly"])
  notAhead (keyword "abstract")
  let key ← memberKey g
  let isOptional := (← optional (mark "?")).isSome
  let type ← optional (ascribed g .type)
  pure (.property key isOptional type doc)

/-- A member below the comment `above`. -/
def member (g : Grammar) (above : Option Comment) : Parse (Option Member) := do
  let start ← word
  oneOf [
    some <$> indexMember g,
    constructorMember g *> pure none,
    some <$> methodMember g,
    callSignature g .type *> pure none,
    some <$> propertyMember g (above.bind (·.doc? start.row))]

/-- The comment that stands in front of the next word, or else `above`. -/
def commentAbove (above : Option Comment) : Parse (Option Comment) := do
  pure ((← place).skipTrivia.1.getLast? <|> above)

/-- The comments in front of a semicolon that is left out: the last one counts as standing above
what follows. -/
def memberSeparator : Parse (Option Comment) := do
  let before ← place
  match before.impliedSemicolon? .type with
  | some c => do
    moveTo c
    let passed := before.skipTrivia.1.filter fun comment => comment.lastRow ≤ c.row
    pure (if c.left < before.left then passed.getLast? else none)
  | none => do
    or (mark ";") (mark ",")
    pure none

/-- Members set apart by commas and semicolons, up to the closing brace. -/
def membersWithin (g : Grammar) : Nat → Option Comment → Parse (List Member)
  | 0, _ => fail
  | bound + 1, above => do
    let above ← commentAbove above
    let m ← member g above
    let others ← or
      (do
        let above ← memberSeparator
        if ← check (or (mark "\x7d") (mark "|\x7d")) then pure []
        else membersWithin g bound above)
      (pure [])
    pure (m.toList ++ others)

/-- The members between braces. -/
def objectMembers (g : Grammar) : Parse (List Member) := do
  or (mark "\x7b|") (mark "\x7b")
  let members ← or
    (do
      let comment ← commentAbove none
      let above := if (← optional (or (mark ",") (mark ";"))).isSome then none else comment
      membersWithin g (← place).left above)
    (pure [])
  or (mark "|\x7d") (mark "\x7d")
  pure members

/-- What a label may be. -/
def label : Parse String := typeName

def tupleElement (g : Grammar) : Parse TupleElement :=
  oneOf [
    (do
      mark "..."
      let name ← label
      let type ← ascribed g .closed
      pure (.rest (some name) type)),
    (do
      mark "..."
      let isHidden ← commentAhead
      let type ← g.type .closed
      pure (.rest none (if isHidden then .other else type))),
    (do
      let name ← label
      let isOptional := (← optional (mark "?")).isSome
      let type ← ascribed g .closed
      pure (if isOptional then .optional (some name) type else .required (some name) type)),
    (do
      let type ← g.type .closed
      let isOptional := (← optional (mark "?")).isSome
      pure (if isOptional then .optional none type else .required none type))]

/-- The rest of a template behind its opening quote. -/
def templateTypeWithin (g : Grammar) : Nat → Parse Unit
  | 0 => fail
  | bound + 1 => do
    let c ← place
    match c.rest with
    | '`' :: _ => moveTo (c.advance 1)
    | '$' :: '\x7b' :: _ => do
      moveTo (c.advance 2)
      discard (g.type .closed)
      mark "\x7d"
      templateTypeWithin g bound
    | '\\' :: _ => failAt c
    | _ :: _ => do
      moveTo (c.advance 1)
      templateTypeWithin g bound
    | [] => failAt c

def templateType (g : Grammar) : Parse TypeExpr := do
  mark "`"
  templateTypeWithin g (← place).left
  pure .template

/-- The type of a value: a path of names, indices and calls. -/
def queryType (g : Grammar) : Parse TypeExpr := do
  keyword "typeof"
  discard anyName
  discard (many (oneOf [
    (do
      or (markBut "." ['.']) (mark "?.")
      skip (mark "#")
      discard anyName),
    arguments g,
    (do
      skip (mark "?.")
      mark "["
      oneOf [discard stringLiteral, discard number, discard keywordType]
      mark "]")]))
  skip (typeArguments g)
  pure .other

/-- A type taken from another module. -/
def importType (g : Grammar) : Parse TypeExpr := do
  keyword "import"
  arguments g
  discard (many (or (do mark "."; discard anyName) (arguments g)))
  skip (typeArguments g)
  pure .other

/-- A type with nothing behind it. -/
def atomicType (g : Grammar) (follow : Follow) : Parse TypeExpr :=
  oneOf [
    (do
      mark "("
      let type ← g.type .closed
      mark ")"
      pure (.paren type)),
    (do pure (.object (← objectMembers g))),
    (do pure (.tuple (← listedLoosely "[" "]" (tupleElement g)))),
    (do pure (.stringLiteral (← stringLiteral))),
    numberType,
    templateType g,
    (do
      keyword "keyof"
      discard (g.primaryType follow)
      pure .other),
    queryType g,
    (do
      mark "?"
      discard (g.primaryType follow)
      pure .other),
    mark "*" *> pure .other,
    importType g,
    keywordType,
    namedTypeBut g typeKeywords]

/-- Lookups and array marks behind a type. -/
def typeSuffixes (g : Grammar) (follow : Follow) : Nat → TypeExpr → Parse TypeExpr
  | 0, type => pure type
  | bound + 1, type =>
    or
      (do
        sameStatement follow
        let before ← commentAhead
        mark "["
        let inside ← commentAhead
        match ← optional (mark "]") with
        | some () => typeSuffixes g follow bound (.array type)
        | none =>
          let index ← g.type .closed
          mark "]"
          typeSuffixes g follow bound (.lookup type (if before || inside then .other else index)))
      (pure type)

def primaryTypeRule (g : Grammar) (follow : Follow) : Parse TypeExpr := do
  typeSuffixes g follow (← place).left (← atomicType g follow)

/-- An operand of `&`. -/
def typeOperand (g : Grammar) (follow : Follow) : Parse TypeExpr :=
  oneOf [
    functionType g follow,
    constructorType g follow,
    (do
      keyword "readonly"
      pure (.readonly (← g.type follow))),
    (do
      keyword "infer"
      discard anyName
      skip (do
        keyword "extends"
        discard (g.type follow))
      pure .other),
    primaryTypeRule g follow]

/-- An operator between types. -/
def typeOperator (follow : Follow) (operator : String) : Parse Unit := do
  sameStatement follow
  mark operator

def membersOfUnion : TypeExpr → List TypeExpr
  | .union members => members
  | type => [type]

def membersOfIntersection : TypeExpr → List TypeExpr
  | .inter members => members
  | type => [type]

/-- Operands of `&`. One that is an intersection itself, without parentheses, gives its members. -/
def intersectionOf (operand : Parse TypeExpr) (follow : Follow) : Parse TypeExpr := do
  match ← sepBy1 operand (typeOperator follow "&") with
  | [type] => pure type
  | types => pure (.inter (types.flatMap membersOfIntersection))

/-- An operand. An operator that stands in front of it makes a type with this member alone. -/
def operandWithin (g : Grammar) (follow : Follow) : Nat → Parse TypeExpr
  | 0 => fail
  | bound + 1 => oneOf [
    (do
      mark "|"
      pure (.union (membersOfUnion (← intersectionOf (operandWithin g follow bound) follow)))),
    (do
      mark "&"
      pure (.inter (membersOfIntersection (← operandWithin g follow bound)))),
    typeOperand g follow]

/-- Operands of `|`. One that is a union itself, without parentheses, gives its members. -/
def unionType (g : Grammar) (follow : Follow) : Parse TypeExpr := do
  let operand := operandWithin g follow ((← place).left + 1)
  match ← sepBy1 (intersectionOf operand follow) (typeOperator follow "|") with
  | [type] => pure type
  | types => pure (.union (types.flatMap membersOfUnion))

/-- A type, with the branches of a conditional type at choice. -/
def typeRule (g : Grammar) (follow : Follow) : Parse TypeExpr := do
  let type ← unionType g follow
  or
    (do
      sameStatement follow
      keyword "extends"
      discard (g.type .closed)
      mark "?"
      discard (g.type .closed)
      mark ":"
      discard (g.type follow)
      pure .other)
    (pure type)

end Schemata.TypeScript.Grammar
