import Schemata.Path.Lexical

/-!
Import specifiers between files: up from a directory to what it has in common with the target,
then down to the target. A specifier that would not begin with `..` is marked as relative.
-/
namespace Schemata.Path

def commonLength : List Component → List Component → Nat
  | a :: as, b :: bs => if a = b then commonLength as bs + 1 else 0
  | _, _ => 0

def joinSlashes : List (List Char) → List Char
  | [] => []
  | [part] => part
  | part :: parts => part ++ '/' :: joinSlashes parts

def stepsBetween (source target : List Component) : List (List Char) :=
  let common := commonLength source target
  List.replicate (source.length - common) ['.', '.'] ++ (target.drop common).map Component.text

/-- Puts `./` in front of a text that does not begin with two dots. -/
def markRelative (text : List Char) : List Char :=
  if ['.', '.'].isPrefixOf text then text else '.' :: '/' :: text

/-- The specifier that reaches `target` from a module in `directory`. -/
def specifier (directory target : List Char) : List Char :=
  markRelative (joinSlashes
    (stepsBetween (lexical (components directory)) (lexical (components target))))

/-- The specifier that reaches `target` from the module `file`. -/
def specifierFromFile (file target : List Char) : List Char :=
  specifier ((directory? file).getD []) target

end Schemata.Path
