import Schemata.Path.Basic

/-!
Paths without `.` and `..`, found without asking any file system. A `..` drops the component in
front of it, a kept `..` included, and is kept where none can be dropped.
-/
namespace Schemata.Path

/-- Adds a component to a path that is given from its end. -/
def step (stack : List Component) : Component → List Component
  | .current => stack
  | .parent =>
    match stack with
    | [] => [.parent]
    | .root :: rest => .parent :: .root :: rest
    | _ :: rest => rest
  | .root => [.root]
  | .name text => .name text :: stack

def lexical (path : List Component) : List Component := (path.foldl step []).reverse

end Schemata.Path
