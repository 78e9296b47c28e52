/-!
What a command line asks for.
-/
namespace Schemata.Commands

/-- A call for validators. Without an input they are those of configured entries. -/
structure GenerateRequest where
  input : Option String := none
  output : Option String := none
  /-- Takes the place of the rounds that the entries allow. -/
  maxRounds : Option UInt32 := none
  keepComments : Bool := false
  ignoreTags : Bool := false
  entry : Option String := none
  all : Bool := false
  /-- The file for the module of type assertions. -/
  assertions : Option String := none
  /-- Whether an unplaced validator counts as a failure. -/
  strict : Bool := false
  deriving DecidableEq, Repr

inductive Shell where
  | bash
  | elvish
  | fish
  | powershell
  | zsh
  deriving DecidableEq, Repr

inductive Command where
  | generate (request : GenerateRequest)
  | init (overwrite : Bool)
  | watch (entry : Option String)
  | list
  | completion (shell : Shell)
  deriving DecidableEq, Repr

structure Invocation where
  /-- Whether reports are JSON. -/
  json : Bool := false
  /-- Whether every entry is reported. -/
  verbose : Bool := false
  command : Command
  deriving DecidableEq, Repr

end Schemata.Commands
