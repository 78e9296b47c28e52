import Schemata.TypeScript.Grammar.Expressions

/-!
Statements. The declarations of types are read; all else is passed over. Words such as `type` and
`namespace` are names as well: where a semicolon is left out behind one, it declares nothing.
-/
namespace Schemata.TypeScript.Grammar

open Parse

/-! Declarations of types. -/

/-- A declared name with what stands under it. -/
structure Declared where
  name : String
  typeParameters : List String := []
  body : Body
  deriving Inhabited

/-- The words that are no name of an alias. -/
def aliasKeywords : List String := ["as", "in", "instanceof", "satisfies"]

/-- A type under a name. Where `type` may be a name, the alias stands on its line. -/
def typeAlias (g : Grammar) (isWord : Bool) : Parse Declared := do
  keyword "type"
  if isWord then sameStatement .expression
  let name ← nameBut (if isWord then aliasKeywords else [])
  let typeParameters ← typeParametersOrNone g
  mark "="
  let type ← g.type .type
  semicolon .type
  pure { name, typeParameters, body := .alias type }

/-- The object types that an interface is built on. -/
def bases (g : Grammar) : Parse (List TypeExpr) := do
  keyword "extends"
  sepBy1 (namedTypeBut g []) (mark ",")

def interface (g : Grammar) : Parse Declared := do
  keyword "interface"
  let name ← anyName
  let typeParameters ← typeParametersOrNone g
  let bases := (← optional (bases g)).getD []
  let members ← objectMembers g
  pure { name, typeParameters, body := .interface bases members }

def enumeration (g : Grammar) : Parse Declared := do
  skip (keyword "const")
  keyword "enum"
  let name ← anyName
  discard (listed "\x7b" "\x7d" (do
    discard (memberKey g)
    skip (initializer g .closed)))
  pure { name, body := .enum }

def declared (g : Grammar) (isWord : Bool) : Parse Declared :=
  oneOf [typeAlias g isWord, interface g, enumeration g]

/-! Declarations of values. -/

/-- A function, with a body or as one of its signatures only. -/
def functionDeclaration (g : Grammar) : Parse Unit := do
  functionHead
  discard anyName
  discard (callSignature g .signature)
  or (closedBlock g) (semicolon .signature)

def classDeclaration (g : Grammar) : Parse Unit := do
  discard (many (decorator g))
  let isAbstract := (← optional (keyword "abstract")).isSome
  keyword "class"
  discard anyName
  classTail g
  if !isAbstract then skipImpliedSemicolon .type

/-- A name, or the parts of a value, with its type and value. The answer tells how the text behind
it goes on. -/
def declarator (g : Grammar) : Parse Follow := do
  binding g
  skip (markBut "!" ['='])
  skip (ascribed g .type)
  pure (if (← optional (initializer g .expression)).isSome then .expression else .type)

def variableDeclaration (g : Grammar) : Parse Unit := do
  discard (oneKeyword ["const", "let", "var"])
  let follows ← sepBy1 (declarator g) (mark ",")
  semicolon (follows.getLast?.getD .type)

/-- A module within a source. Where its word may be a name, the name stands on its line. -/
def moduleDeclaration (g : Grammar) (isWord : Bool) : Parse Unit := do
  discard (oneKeyword ["module", "namespace"])
  if isWord then sameStatement .expression
  namespaceTail g

/-- Another name for a part of a module. -/
def importAlias : Parse Unit := do
  keyword "import"
  discard anyName
  mark "="
  discard (sepBy1 anyName (mark "."))
  semicolon .type

/-- A declaration that names no type of its own. -/
def valueDeclaration (g : Grammar) (isWord : Bool) : Parse Unit :=
  oneOf [functionDeclaration g, classDeclaration g, variableDeclaration g,
    moduleDeclaration g isWord, importAlias]

def declaration (g : Grammar) (isWord : Bool) : Parse Unit :=
  or (discard (declared g isWord)) (valueDeclaration g isWord)

/-- A statement that what it declares is defined elsewhere. -/
def ambientDeclaration (g : Grammar) (isWord : Bool) : Parse Unit := do
  keyword "declare"
  if isWord then sameStatement .expression
  oneOf [
    declaration g false,
    (do
      keyword "global"
      closedBlock g),
    (do
      keyword "module"
      mark "."
      discard anyName
      discard (ascribed g .type)
      semicolon .type)]

/-! Imports and exports. -/

/-- The name of something in another module. -/
def exportedName : Parse Unit := or (discard stringLiteral) (discard anyName)

/-- The module that something is taken from. -/
def fromClause : Parse Unit := do
  keyword "from"
  discard stringLiteral

/-- A name on a list, with another name for it at choice. -/
def renamed : Parse Unit := do
  exportedName
  skip (do
    keyword "as"
    exportedName)

/-- Names between braces, of which some may be marked as types. -/
def nameList : Parse Unit :=
  discard (listedLoosely "\x7b" "\x7d" (or
    (do
      discard (oneKeyword ["type", "typeof"])
      renamed)
    renamed))

def importAttributes (g : Grammar) : Parse Unit := skip (do
  keyword "with"
  sparse "\x7b" "\x7d" (property g))

def importAll : Parse Unit := do
  mark "*"
  keyword "as"
  discard anyName

def importStatement (g : Grammar) : Parse Unit := do
  keyword "import"
  let clause : Parse Unit := oneOf [
    (do
      oneOf [importAll, nameList, (do
        discard anyName
        skip (do
          mark ","
          or importAll nameList))]
      fromClause),
    (do
      discard anyName
      mark "="
      keyword "require"
      mark "("
      discard stringLiteral
      mark ")"),
    discard stringLiteral]
  or (do
    discard (oneKeyword ["type", "typeof"])
    clause) clause
  importAttributes g
  semicolon .type

/-- What an export gives on that it does not declare. -/
def exportRest (g : Grammar) : Parse Unit :=
  oneOf [
    (do
      mark "*"
      skip (do
        keyword "as"
        exportedName)
      fromClause
      semicolon .type),
    (do
      skip (keyword "type")
      nameList
      skip fromClause
      semicolon .type),
    importAlias,
    (do
      mark "="
      g.expression .expression
      semicolon .expression),
    (do
      keyword "as"
      keyword "namespace"
      discard anyName
      semicolon .type),
    (do
      keyword "default"
      g.expression .expression
      semicolon .expression)]

/-- An export, with the declaration in it. -/
def exportStatement (g : Grammar) : Parse (Option Declared) := do
  discard (many (decorator g))
  keyword "export"
  sameStatement .expression
  oneOf [
    (do
      skip (keyword "default")
      or (some <$> declared g false)
        (or (ambientDeclaration g false) (valueDeclaration g false) *> pure none)),
    exportRest g *> pure none]

/-! Control. -/

def elseBranch (g : Grammar) : Parse Unit := do
  keyword "else"
  g.statement

def ifStatement (g : Grammar) : Parse Unit := do
  keyword "if"
  parenthesized g
  g.statement
  skip (elseBranch g)

/-- What a loop goes over. -/
def loopSource (g : Grammar) : Parse Unit := do
  or
    (do
      discard (oneKeyword ["const", "let", "var"])
      binding g
      skip (initializer g .closed))
    (do
      if !(← plainOperand g .closed) then
        fail)
  discard (oneKeyword ["in", "of"])
  g.expressions .closed

/-- The start, condition and step of a loop. -/
def loopSteps (g : Grammar) : Parse Unit := do
  oneOf [
    (do
      discard (oneKeyword ["const", "let", "var"])
      discard (sepBy1 (declarator g) (mark ","))
      mark ";"),
    (do
      g.expressions .closed
      mark ";"),
    mark ";"]
  skip (g.expressions .closed)
  mark ";"
  skip (g.expressions .closed)

def forStatement (g : Grammar) : Parse Unit := do
  keyword "for"
  skip (keyword "await")
  mark "("
  or (loopSource g *> mark ")") (loopSteps g *> mark ")")
  g.statement

def whileStatement (g : Grammar) : Parse Unit := do
  keyword "while"
  parenthesized g
  g.statement

def doStatement (g : Grammar) : Parse Unit := do
  keyword "do"
  g.statement
  keyword "while"
  parenthesized g
  skip (semicolon .type)

def withStatement (g : Grammar) : Parse Unit := do
  keyword "with"
  parenthesized g
  g.statement

def switchStatement (g : Grammar) : Parse Unit := do
  keyword "switch"
  parenthesized g
  mark "\x7b"
  let caseHead : Parse Unit := or
    (do
      keyword "case"
      g.expressions .closed
      mark ":")
    (do
      keyword "default"
      mark ":")
  discard (many (do
    caseHead
    discard (many (do
      notAhead (oneKeyword ["case", "default"])
      g.statement))))
  mark "\x7d"

def tryStatement (g : Grammar) : Parse Unit := do
  keyword "try"
  closedBlock g
  skip (do
    keyword "catch"
    skip (do
      mark "("
      binding g
      skip (ascribed g .closed)
      mark ")")
    closedBlock g)
  skip (do
    keyword "finally"
    closedBlock g)

/-- A statement of one word that a label or a value may follow. -/
def jumpStatement (g : Grammar) : Parse Unit := do
  match ← oneKeyword ["break", "continue", "debugger", "return", "throw"] with
  | "debugger" => semicolon .type
  | "throw" => do
    g.expressions .expression
    semicolon .expression
  | "return" => or (semicolon .type) (do
    g.expressions .expression
    semicolon .expression)
  | _ => or (semicolon .type) (do
    discard anyName
    semicolon .type)

/-- The words that begin a statement and no expression. -/
def statementWords : List String :=
  ["abstract", "break", "const", "continue", "debugger", "do", "enum", "for", "if", "interface",
    "return", "switch", "throw", "try", "var", "while", "with"]

def labeledStatement (g : Grammar) : Parse Unit := do
  discard (nameBut (statementWords ++ operatorWords ++ valueWords))
  mark ":"
  g.statement

/-- An expression on its own. Where it begins like a declaration it cannot be told from one. -/
def expressionStatement (g : Grammar) : Parse Unit := do
  notAhead (oneKeyword statementWords)
  notAhead (do
    keyword "export"
    mark "*")
  notAhead (do
    functionHead
    anyName)
  notAhead (do
    keyword "class"
    nameBut ["extends", "implements"])
  g.expressions .expression
  semicolon .expression

/-- Any statement. An export and an import may stand in every block. -/
def statementRule (g : Grammar) : Parse Unit :=
  oneOf [
    mark ";",
    discard (exportStatement g),
    importStatement g,
    declaration g true,
    ambientDeclaration g true,
    ifStatement g,
    forStatement g,
    whileStatement g,
    doStatement g,
    withStatement g,
    switchStatement g,
    tryStatement g,
    jumpStatement g,
    labeledStatement g,
    closedBlock g,
    expressionStatement g]

/-- A statement at the top, with the declaration in it and whether it is exported. -/
def topStatement (g : Grammar) : Parse (Option (Declared × Bool)) :=
  oneOf [
    (fun d => some (d, false)) <$> declared g true,
    (Option.map fun d => (d, true)) <$> exportStatement g,
    statementRule g *> pure none]

end Schemata.TypeScript.Grammar
