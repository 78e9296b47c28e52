import Schemata.Commands.Invocation

/-!
Command lines. The flags that shape reports may stand in front of a command and behind it; all
else stands behind it, in any order. Behind `--` every word stands for itself.
-/
namespace Schemata.Commands

inductive UsageError where
  | missingCommand
  | unknownCommand (word : String)
  | unknownOption (word : String)
  | missingValue (option : String)
  | unwantedValue (option : String)
  | invalidValue (option value : String)
  | repeated (option : String)
  | missingWord (name : String)
  | unwantedWord (word : String)
  | conflict (first second : String)
  deriving DecidableEq, Repr

def UsageError.message : UsageError → String
  | missingCommand => "a command is required"
  | unknownCommand word => "unknown command '" ++ word ++ "'"
  | unknownOption word => "unknown option '" ++ word ++ "'"
  | missingValue option => "a value is required for '" ++ option ++ "'"
  | unwantedValue option => "no value is allowed for '" ++ option ++ "'"
  | invalidValue option value => "invalid value '" ++ value ++ "' for '" ++ option ++ "'"
  | repeated option => "'" ++ option ++ "' cannot be given more than once"
  | missingWord name => "the argument " ++ name ++ " is required"
  | unwantedWord word => "unexpected argument '" ++ word ++ "'"
  | conflict first second => "'" ++ first ++ "' cannot be given with '" ++ second ++ "'"

namespace Arguments

/-- What a word on a command line is. -/
inductive Token where
  | word (text : String)
  /-- Everything behind it is a word. -/
  | divider
  /-- An option by its name, with a value if one is joined to it. -/
  | long (name : String) (value : Option String)
  /-- Flags by their letters. -/
  | letters (chars : List Char)
  deriving DecidableEq, Repr

def Token.ofText (text : String) : Token :=
  match text.toList with
  | ['-', '-'] => divider
  | '-' :: '-' :: cs =>
    let name := "--" ++ String.ofList (cs.takeWhile (· ≠ '='))
    match cs.dropWhile (· ≠ '=') with
    | _ :: value => long name (some (String.ofList value))
    | [] => long name none
  | '-' :: c :: cs => letters (c :: cs)
  | _ => word text

/-- What may stand on a command line. -/
structure Usage where
  flags : List String
  /-- Flags by the letters that stand for them. -/
  letters : List (Char × String)
  /-- Options that take a value. -/
  options : List String := []
  /-- How many other words there may be. -/
  words : Nat := 0

structure Parsed where
  flags : List String := []
  options : List (String × String) := []
  words : List String := []
  deriving DecidableEq, Repr

namespace Parsed

def has (p : Parsed) (flag : String) : Bool := p.flags.contains flag

def option? (p : Parsed) (name : String) : Option String := p.options.lookup name

def addFlag (p : Parsed) (flag : String) : Except UsageError Parsed :=
  if p.has flag then .error (.repeated flag) else .ok { p with flags := p.flags ++ [flag] }

def addOption (p : Parsed) (name value : String) : Except UsageError Parsed :=
  if (p.option? name).isSome then .error (.repeated name)
  else .ok { p with options := p.options ++ [(name, value)] }

def addWord (limit : Nat) (p : Parsed) (word : String) : Except UsageError Parsed :=
  if p.words.length < limit then .ok { p with words := p.words ++ [word] }
  else .error (.unwantedWord word)

def addLetters (letters : List (Char × String)) (p : Parsed) :
    List Char → Except UsageError Parsed
  | [] => .ok p
  | c :: cs =>
    match letters.lookup c with
    | some flag => do addLetters letters (← p.addFlag flag) cs
    | none => .error (.unknownOption (String.ofList ['-', c]))

def addLongFlag (flags : List String) (p : Parsed) (name : String) (value : Option String) :
    Except UsageError Parsed :=
  if flags.contains name then
    match value with
    | some _ => .error (.unwantedValue name)
    | none => p.addFlag name
  else .error (.unknownOption name)

end Parsed

def reportFlags : List String := ["--json", "--verbose"]

def helpFlag : String := "--help"

def helpLetter : Char × String := ('h', helpFlag)

def versionFlag : String := "--version"

/-- The flags in front of a command. -/
def frontUsage : Usage where
  flags := helpFlag :: versionFlag :: reportFlags
  letters := [helpLetter, ('V', versionFlag)]

/-- Reads the words behind a command. A call for help ends the reading. -/
def readBehind (usage : Usage) : Parsed → List String → Except UsageError Parsed
  | p, [] => .ok p
  | p, text :: rest =>
    if p.has helpFlag then .ok p
    else
      match Token.ofText text with
      | .word word => do readBehind usage (← p.addWord usage.words word) rest
      | .divider => rest.foldlM (Parsed.addWord usage.words) p
      | .letters cs => do readBehind usage (← p.addLetters usage.letters cs) rest
      | .long name value =>
        if usage.options.contains name then
          match value, rest with
          | some value, rest => do readBehind usage (← p.addOption name value) rest
          | none, next :: rest =>
            match Token.ofText next with
            | .word value => do readBehind usage (← p.addOption name value) rest
            | _ => .error (.missingValue name)
          | none, [] => .error (.missingValue name)
        else do readBehind usage (← p.addLongFlag usage.flags name value) rest

/-- The number that a text with a sign at choice stands for, if it fits. -/
def count? (text : String) : Option UInt32 :=
  let (isNegative, digits) :=
    match text.toList with
    | '-' :: digits => (true, digits)
    | '+' :: digits => (false, digits)
    | digits => (false, digits)
  if digits.isEmpty || !digits.all Char.isDigit then none
  else
    let n := digits.foldl (fun n c => 10 * n + (c.toNat - 48)) 0
    if UInt32.size ≤ n || (isNegative && n ≠ 0) then none else some (UInt32.ofNat n)

def shells : List (String × Shell) :=
  [("bash", .bash), ("elvish", .elvish), ("fish", .fish), ("powershell", .powershell),
    ("zsh", .zsh)]

def generateUsage : Usage where
  flags := ["--keep-comments", "--skip-parse-jsdoc", "--all", "--strict", helpFlag] ++ reportFlags
  letters := [helpLetter]
  options := ["--max-run", "--config", "--with-test"]
  words := 2

/-- Refuses two ways of choosing what is generated. -/
def checkChoice (r : GenerateRequest) : Except UsageError Unit :=
  if r.entry.isSome && r.input.isSome then .error (.conflict "--config" "input")
  else if r.entry.isSome && r.all then .error (.conflict "--config" "--all")
  else if r.all && r.input.isSome then .error (.conflict "--all" "input")
  else .ok ()

def generateRequest (p : Parsed) : Except UsageError GenerateRequest := do
  let maxRounds ←
    match p.option? "--max-run" with
    | none => .ok none
    | some text =>
      match count? text with
      | some n => .ok (some n)
      | none => .error (.invalidValue "--max-run" text)
  let request : GenerateRequest := {
    input := p.words[0]?
    output := p.words[1]?
    maxRounds
    keepComments := p.has "--keep-comments"
    ignoreTags := p.has "--skip-parse-jsdoc"
    entry := p.option? "--config"
    all := p.has "--all"
    assertions := p.option? "--with-test"
    strict := p.has "--strict" }
  checkChoice request
  pure request

/-- The words behind a command, and the command that they make. -/
def command? : String → Option (Usage × (Parsed → Except UsageError Command))
  | "generate" => some (generateUsage, fun p => .generate <$> generateRequest p)
  | "init" =>
    some (⟨["--yes", helpFlag] ++ reportFlags, [('y', "--yes"), helpLetter], [], 0⟩,
      fun p => .ok (.init (p.has "--yes")))
  | "watch" =>
    some (⟨helpFlag :: reportFlags, [helpLetter], ["--config"], 0⟩,
      fun p => .ok (.watch (p.option? "--config")))
  | "list" => some (⟨helpFlag :: reportFlags, [helpLetter], [], 0⟩, fun _ => .ok .list)
  | "completion" =>
    some (⟨helpFlag :: reportFlags, [helpLetter], [], 1⟩, fun p =>
      match p.words with
      | [] => .error (.missingWord "shell")
      | word :: _ =>
        match shells.lookup word with
        | some shell => .ok (.completion shell)
        | none => .error (.invalidValue "shell" word))
  | _ => none

end Arguments

inductive Call where
  | help
  | version
  | run (invocation : Invocation)
  deriving DecidableEq, Repr

namespace Arguments

/-- The call for help on the commands that are named. -/
def helpOn : List String → Except UsageError Call
  | [] => .ok .help
  | name :: rest =>
    if name = "help" then helpOn rest
    else
      match command? name, rest with
      | some _, [] => .ok .help
      | some _, word :: _ => .error (.unknownCommand word)
      | none, _ => .error (.unknownCommand name)

/-- The call for a command with the words behind it. -/
def callOf (front : Parsed) (name : String) (rest : List String) : Except UsageError Call :=
  match command? name with
  | none => if name = "help" then helpOn rest else .error (.unknownCommand name)
  | some (usage, commandOf) => do
    let p ← readBehind usage {} rest
    if p.has helpFlag then pure .help
    else
      let command ← commandOf p
      pure (.run {
        json := front.has "--json" || p.has "--json"
        verbose := front.has "--verbose" || p.has "--verbose"
        command })

def readFront (p : Parsed) : List String → Except UsageError Call
  | [] => .error .missingCommand
  | text :: rest => do
    match Token.ofText text with
    | .word name => callOf p name rest
    | .divider => .error .missingCommand
    | .letters cs => next (← p.addLetters frontUsage.letters cs) rest
    | .long name value => next (← p.addLongFlag frontUsage.flags name value) rest
where
  /-- Goes on, unless the command line is done. -/
  next (p : Parsed) (rest : List String) : Except UsageError Call :=
    if p.has helpFlag then .ok .help
    else if p.has versionFlag then .ok .version
    else readFront p rest

end Arguments

def Call.ofArguments (arguments : List String) : Except UsageError Call :=
  Arguments.readFront {} arguments

end Schemata.Commands
