import Schemata.TypeScript.Grammar.Patterns

/-!
Expressions. They are only passed over, so that operators need no ranks: an expression is operands
with operators between them. What counts is where it ends, and that depends on the place of its
statement, because a line may end a statement in front of some words and not of others.
-/
namespace Schemata.TypeScript.Grammar

open Parse

/-! Words and marks. -/

/-- The length of a pattern literal behind its first slash, up to and with the closing one. -/
def regexLength (inClass : Bool) : List Char → Option Nat
  | [] => none
  | '\n' :: _ => none
  | '\\' :: c :: rest => if c == '\n' then none else (regexLength inClass rest).map (· + 2)
  | '[' :: rest => (regexLength true rest).map (· + 1)
  | ']' :: rest => (regexLength false rest).map (· + 1)
  | '/' :: rest => if inClass then (regexLength true rest).map (· + 1) else some 1
  | _ :: rest => (regexLength inClass rest).map (· + 1)

/-- A pattern literal with its flags. One that is not closed fails at the end of its line. -/
def regex : Parse Unit := do
  let start ← word
  match start.rest with
  | '/' :: rest =>
    match regexLength false rest with
    | some n =>
      if n = 1 then fail
      else
        let flags := (rest.drop n).takeWhile fun c => 'a' ≤ c && c ≤ 'z'
        discard (takeText start (n + 1 + flags.length))
    | none => failAt (start.advance (1 + (rest.takeWhile (· ≠ '\n')).length)).atWord
  | _ => fail

/-- The rest of a template behind its opening quote. -/
def templateWithin (g : Grammar) : Nat → Parse Unit
  | 0 => fail
  | bound + 1 => do
    let c ← place
    match c.rest with
    | '`' :: _ => moveTo (c.advance 1)
    | '$' :: '\x7b' :: _ => do
      moveTo (c.advance 2)
      g.expressions .closed
      mark "\x7d"
      templateWithin g bound
    | '\\' :: _ =>
      match quotedEscapeLength c.rest with
      | some n => do
        moveTo (c.advance n)
        templateWithin g bound
      | none => failAt c
    | _ :: _ => do
      moveTo (c.advance 1)
      templateWithin g bound
    | [] => failAt c

def template (g : Grammar) : Parse Unit := do
  mark "`"
  templateWithin g (← place).left

/-- What an operator does to the expression that it stands in. -/
inductive Operator where
  /-- Stands between two operands. -/
  | infixed
  /-- Gives its left operand a value. -/
  | assigning
  /-- Begins the branches of a conditional. -/
  | branching
  deriving DecidableEq, Repr

/-- Marks by length, so that the first one that fits is the longest. -/
def operatorMarks : List (String × Option Operator) :=
  [(">>>=", some .assigning), ("===", some .infixed), ("!==", some .infixed),
    (">>>", some .infixed), ("**=", some .assigning), ("<<=", some .assigning),
    (">>=", some .assigning), ("&&=", some .assigning), ("||=", some .assigning),
    ("??=", some .assigning), ("=>", none), ("==", some .infixed), ("!=", some .infixed),
    ("<=", some .infixed), (">=", some .infixed), ("&&", some .infixed), ("||", some .infixed),
    ("??", some .infixed), ("<<", some .infixed), (">>", some .infixed), ("**", some .infixed),
    ("+=", some .assigning), ("-=", some .assigning), ("*=", some .assigning),
    ("/=", some .assigning), ("%=", some .assigning), ("^=", some .assigning),
    ("&=", some .assigning), ("|=", some .assigning), ("<", some .infixed), (">", some .infixed),
    ("&", some .infixed), ("|", some .infixed), ("^", some .infixed), ("+", some .infixed),
    ("-", some .infixed), ("*", some .infixed), ("/", some .infixed), ("%", some .infixed),
    ("=", some .assigning), ("?", some .branching)]

/-- The operator between two operands, which a word or a mark is. -/
def operator : Parse Operator := do
  let start ← word
  match operatorMarks.find? fun (text, _) => text.toList.isPrefixOf start.rest with
  | some (text, some op) => do
    moveTo (start.advance text.length)
    pure op
  | some (_, none) => fail
  | none => do
    discard (oneKeyword ["in", "instanceof"])
    pure .infixed

/-! Functions, classes and objects. -/

/-- The body of a function or of an arrow: a block, or else an expression. -/
def arrowFunction (g : Grammar) (follow : Follow) : Parse Unit := do
  let plain : Parse Unit := do
    or (discard (nameBut (operatorWords ++ valueWords))) (discard (callSignature g .closed))
    mark "=>"
  or (do keyword "async"; plain) plain
  or (block g) (g.expression follow)

/-- What stands in front of the parameters of a function. -/
def functionHead : Parse Unit := do
  skip (do
    keyword "async"
    sameStatement .expression)
  keyword "function"
  skip (mark "*")

def functionExpression (g : Grammar) : Parse Unit := do
  functionHead
  skip anyName
  discard (callSignature g .closed)
  block g

/-- The words that may stand in front of a member's name. -/
def memberWords : List String :=
  ["abstract", "accessor", "async", "declare", "get", "override", "private", "protected", "public",
    "readonly", "set", "static"]

def memberModifiers (follow : Follow) : Parse Unit := do
  discard (many (modifier follow memberWords))
  skip (mark "*")

/-- A member of a class with a body or a value of its own, and what ends it. -/
def classMember (g : Grammar) : Parse Unit := do
  memberModifiers .type
  discard (memberKey g)
  skip (or (mark "?") (markBut "!" ['=']))
  or
    (do
      sameStatement .type
      discard (callSignature g .signature)
      or
        (do
          block g
          skip (semicolon .type))
        (or (mark ",") (semicolon .signature)))
    (do
      skip (ascribed g .type)
      let isGiven := (← optional (initializer g .expression)).isSome
      or (mark ",") (semicolon (if isGiven then .expression else .type)))

def classBody (g : Grammar) : Parse Unit := do
  mark "\x7b"
  discard (many (oneOf [
    mark ";",
    (do
      keyword "static"
      block g),
    (do
      discard (indexMember g)
      or (mark ",") (semicolon .type)),
    (do
      discard (many (decorator g))
      classMember g)]))
  mark "\x7d"

/-- The classes and types that a class is built on. -/
def heritage (g : Grammar) : Parse Unit := do
  skip (do
    keyword "extends"
    discard (sepBy1
      (do
        discard (g.operand .closed)
        skip (typeArguments g))
      (mark ",")))
  skip (do
    keyword "implements"
    discard (sepBy1 (g.type .closed) (mark ",")))

/-- A class behind its name. -/
def classTail (g : Grammar) : Parse Unit := do
  skip (typeParameters g)
  heritage g
  classBody g

def classExpression (g : Grammar) : Parse Unit := do
  discard (many (decorator g))
  keyword "class"
  skip (nameBut ["extends", "implements"])
  classTail g

def property (g : Grammar) : Parse Unit :=
  oneOf [
    (do
      mark "..."
      g.expression .closed),
    (do
      memberModifiers .closed
      discard (memberKey g)
      skip (mark "?")
      discard (callSignature g .closed)
      block g),
    (do
      discard (memberKey g)
      mark ":"
      g.expression .closed),
    discard anyName]

/-- A module of its own inside another. -/
def namespaceTail (g : Grammar) : Parse Unit := do
  or (discard stringLiteral) (discard (sepBy1 anyName (mark ".")))
  skip (closedBlock g)

/-! Elements. -/

/-- The length of a name in an element, which may hold hyphens. -/
def elementNameLength (cs : List Char) : Nat :=
  let plain := nameLength cs
  if plain = 0 then 0
  else plain + ((cs.drop plain).takeWhile fun c => c == '-' || isNamePart c).length

def elementName : Parse Unit := do
  let start ← word
  let length := elementNameLength start.rest
  if length = 0 then fail else discard (takeText start length)

/-- A text in quotes, in which a backslash means itself. -/
def attributeText : Parse Unit := do
  let start ← word
  match start.rest with
  | quote :: rest =>
    let length := (rest.takeWhile (· ≠ quote)).length
    if (quote == '"' || quote == '\'') && length < rest.length then
      discard (takeText start (length + 2))
    else fail
  | [] => fail

def embedded (g : Grammar) : Parse Unit := do
  mark "\x7b"
  skip (or (mark "..." *> g.expression .closed) (g.expressions .closed))
  mark "\x7d"

def elementAttribute (g : Grammar) : Parse Unit :=
  or (embedded g) (do
    elementName
    skip (mark ":" *> elementName)
    skip (do
      mark "="
      oneOf [attributeText, embedded g, g.element]))

/-- The length of a character that is written by its name or number. -/
def characterReferenceLength (cs : List Char) : Option Nat :=
  let closed (before : Nat) (limit : Nat) (digits : List Char) (rest : List Char) : Option Nat :=
    if !digits.isEmpty && digits.length ≤ limit && (rest.drop digits.length).head? == some ';' then
      some (before + digits.length + 1)
    else none
  match cs with
  | '&' :: '#' :: x :: rest =>
    if x == 'x' || x == 'X' then closed 3 6 (rest.takeWhile isHexDigit) rest
    else closed 2 5 ((x :: rest).takeWhile Char.isDigit) (x :: rest)
  | '&' :: rest => closed 1 30 (rest.takeWhile Char.isAlpha) rest
  | _ => none

/-- What stands between the tags of an element. -/
def elementChildren (g : Grammar) : Nat → Parse Unit
  | 0 => pure ()
  | bound + 1 => do
    let c ← place
    match c.rest with
    | '<' :: rest =>
      if ((rest.dropWhile isSpace).head?).any (· == '/') then pure ()
      else do
        g.element
        elementChildren g bound
    | '\x7b' :: _ => do
      embedded g
      elementChildren g bound
    | '&' :: _ =>
      match characterReferenceLength c.rest with
      | some n => do
        moveTo (c.advance n)
        elementChildren g bound
      | none => failAt c
    | d :: _ =>
      if d == '>' || d == '\x7d' then failAt c
      else do
        moveTo (c.advance 1)
        elementChildren g bound
    | [] => failAt c

def closingTag : Parse Unit := do
  mark "<"
  mark "/"
  skip (do
    elementName
    discard (many (or (mark "." *> discard anyName) (mark ":" *> elementName))))
  mark ">"

def elementRule (g : Grammar) : Parse Unit := do
  mark "<"
  let isNamed := (← optional (do
    elementName
    discard (many (or (mark "." *> discard anyName) (mark ":" *> elementName)))
    skip (typeArguments g)
    discard (many (elementAttribute g)))).isSome
  if (← optional (do if isNamed then mark "/" else fail)).isSome then mark ">"
  else
    mark ">"
    elementChildren g (← place).left
    closingTag

/-! Operands. -/

/-- Whether the next word may begin an operand. -/
def operandAhead : Parse Bool := do
  let next := (← place).atWord
  match next.rest with
  | c :: _ =>
    if nameLength next.rest = 0 then pure ("\"'`[\x7b+-~!<@#/".toList.contains c || c.isDigit)
    else
      check (nameBut ["as", "satisfies", "in", "instanceof", "of", "extends", "implements"])
  | [] => pure false

/-- An expression in parentheses, which may have its type ascribed. -/
def parenthesized (g : Grammar) : Parse Unit := do
  mark "("
  g.expressions .closed
  skip (ascribed g .closed)
  mark ")"

/-- A pattern that is given a value. -/
def assigned (pattern : Parse Unit) : Parse Bool := do
  pattern
  if ← check (markBut "=" ['=', '>']) then pure true else fail

/-- An operand without anything behind it. The answer tells whether it can be assigned to. -/
def atom (g : Grammar) (follow : Follow) : Parse Bool := do
  let start ← word
  match start.rest with
  | '(' :: _ => parenthesized g *> pure true
  | '[' :: _ =>
    or (assigned (arrayPattern g)) (sparse "[" "]" (spread g) *> pure false)
  | '\x7b' :: _ =>
    or (assigned (objectPattern g)) (sparse "\x7b" "\x7d" (property g) *> pure false)
  | '`' :: _ => template g *> pure false
  | '/' :: _ => regex *> pure false
  | '@' :: _ => classExpression g *> pure false
  | '#' :: _ => do
    mark "#"
    discard anyName
    if ← check (keyword "in") then pure false else fail
  | '<' :: _ =>
    if g.elements then g.element *> pure false
    else do
      discard (typeArguments g)
      discard (g.operand follow)
      pure false
  | c :: _ =>
    if c == '"' || c == '\'' then stringLiteral *> pure false
    else if c.isDigit || c == '.' then number *> pure false
    else
      oneOf [
        functionExpression g *> pure false,
        classExpression g *> pure false,
        (do
          keyword "import"
          if ← check (oneOf [mark "(", mark "<", mark "."]) then pure false else fail),
        (do
          keyword "namespace"
          sameStatement follow
          namespaceTail g
          pure false),
        (do
          keyword "new"
          sameStatement follow
          discard (g.operand follow)
          pure false),
        (do
          let name ← nameBut operatorWords
          pure (!valueWords.contains name))]
  | [] => fail

/-- Calls, lookups and the like behind an operand. -/
def suffixes (g : Grammar) (follow : Follow) : Nat → Bool → Parse Bool
  | 0, isTarget => pure isTarget
  | bound + 1, isTarget => do
    let next ← optional (do
      sameStatement follow
      let c := (← place).atWord
      match c.rest with
      | '.' :: _ => do
        markBut "." ['.']
        skip (mark "#")
        discard anyName
        pure true
      | '?' :: '.' :: _ => do
        mark "?."
        oneOf [
          (do
            skip (mark "#")
            discard anyName
            pure true),
          (do
            mark "["
            g.expressions .closed
            mark "]"
            pure true),
          (do
            skip (typeArguments g)
            arguments g
            pure false)]
      | '[' :: _ => do
        mark "["
        g.expressions .closed
        mark "]"
        pure true
      | '(' :: _ => arguments g *> pure false
      | '`' :: _ => template g *> pure false
      | '!' :: _ => markBut "!" ['='] *> pure true
      | '<' :: _ => do
        discard (typeArguments g)
        or (arguments g) (do if ← operandAhead then fail)
        pure false
      | '+' :: '+' :: _ => mark "++" *> pure false
      | '-' :: '-' :: _ => mark "--" *> pure false
      | _ => fail)
    match next with
    | some isTarget => suffixes g follow bound isTarget
    | none => pure isTarget

/-- An operand without an operator in front that is no arrow function. -/
def plainOperand (g : Grammar) (follow : Follow) : Parse Bool := do
  suffixes g follow (← place).left (← atom g follow)

/-- An operator in front of an operand. -/
def operatorInFront : Parse Unit :=
  or (oneMark ["++", "--", "!", "~", "-", "+"])
    (discard (oneKeyword ["await", "delete", "typeof", "using", "void"]))

/-- An operand with the operators in front of it. -/
def operandRule (g : Grammar) (follow : Follow) : Parse Bool :=
  oneOf [
    arrowFunction g follow *> pure false,
    (do
      operatorInFront
      g.operand follow),
    (do
      keyword "yield"
      or (do mark "*"; g.expression follow) (skip (do
        sameStatement follow
        g.expression follow))
      pure false),
    plainOperand g follow]

/-- The rest of an expression behind an operand. -/
def operations (g : Grammar) (follow : Follow) : Nat → Bool → Parse Unit
  | 0, _ => pure ()
  | bound + 1, isTarget => do
    let next ← optional (do
      sameStatement follow
      or
        (do
          match ← oneKeyword ["as", "satisfies"] with
          | "as" => or (keyword "const") (discard (g.type follow))
          | _ => discard (g.type follow)
          pure (some false))
        (do
          match ← operator with
          | .infixed => some <$> operandRule g follow
          | .assigning => do
            if !isTarget then fail
            g.expression follow
            pure none
          | .branching => do
            or
              (do
                g.expression .closed
                mark ":")
              (do
                let isTarget ← plainOperand g .closed
                operations g .closed bound isTarget
                mark ":")
            g.expression follow
            pure none))
    match next with
    | some (some isTarget) => operations g follow bound isTarget
    | _ => pure ()

def expressionRule (g : Grammar) (follow : Follow) : Parse Unit := do
  let isTarget ← operandRule g follow
  operations g follow (← place).left isTarget

end Schemata.TypeScript.Grammar
