/-!
What goes wrong with files, in the words of the system.
-/
namespace Schemata.Files

inductive Failure where
  | notFound
  | alreadyExists
  | notDirectory
  | isDirectory
  | nameTooLong
  /-- A path that holds a NUL character. -/
  | invalidPath
  /-- The bytes of a file are no text. -/
  | invalidText
  /-- Anything else, in the words that it was reported in. -/
  | other (message : String)
  deriving DecidableEq, Repr

def Failure.message : Failure → String
  | notFound => "No such file or directory (os error 2)"
  | alreadyExists => "File exists (os error 17)"
  | notDirectory => "Not a directory (os error 20)"
  | isDirectory => "Is a directory (os error 21)"
  | nameTooLong => "File name too long (os error 36)"
  | invalidPath => "file name contained an unexpected NUL byte"
  | invalidText => "stream did not contain valid UTF-8"
  | other message => message

end Schemata.Files
