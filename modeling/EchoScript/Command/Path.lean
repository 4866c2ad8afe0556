/-!
# EchoScript.Command.Path

File paths as text: their components, and the extension of the file they name.
-/

namespace EchoScript
namespace Command
namespace Path

/-- The stretches of a text between slashes; the first one continues `current`, which is reversed. -/
def splitFrom (current : List Char) : List Char → List (List Char)
  | [] => [current.reverse]
  | c :: cs => if c = '/' then current.reverse :: splitFrom [] cs else splitFrom (c :: current) cs

/-- The components of a path, the empty ones that slashes leave included. -/
def components (path : String) : List String := (splitFrom [] path.toList).map String.ofList

/-- The name of the file or folder that a path ends in. A path that ends in `..` has none. -/
def fileName? (path : String) : Option String :=
  match ((components path).filter fun c => c ≠ "" ∧ c ≠ ".").getLast? with
  | some ".." => none
  | last => last

/-- What follows the last dot of a file name, unless that dot comes first. -/
def extensionOf (name : String) : Option String :=
  let backward := name.toList.reverse
  match backward.dropWhile (· ≠ '.') with
  | _ :: _ :: _ => some (String.ofList (backward.takeWhile (· ≠ '.')).reverse)
  | _ => none

def extension? (path : String) : Option String := (fileName? path).bind extensionOf

def isScript (path : String) : Bool := extension? path = some "fab"

end Path
end Command
end EchoScript
