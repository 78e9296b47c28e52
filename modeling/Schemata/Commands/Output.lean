/-!
What a command leaves behind for its caller: two texts and a code.
-/
namespace Schemata.Commands

structure Output where
  /-- Zero is success. -/
  code : UInt8 := 0
  /-- Products and reports that were asked for. -/
  stdout : String := ""
  stderr : String := ""
  deriving DecidableEq, Repr, Inhabited

namespace Output

/-- A message of a command on one line. -/
def line (command message : String) : String := "zodgen " ++ command ++ ": " ++ message ++ "\n"

/-- The output of a command that gave up. -/
def refused (command message : String) : Output := { code := 2, stderr := line command message }

end Output

end Schemata.Commands
