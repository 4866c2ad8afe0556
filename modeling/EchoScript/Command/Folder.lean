import EchoScript.Command.Path

/-!
# EchoScript.Command.Folder

Reading a file named by a path: the ways in which that fails, and folders held in memory, in which
paths lead where they would on a disk.
-/

namespace EchoScript
namespace Command

inductive ReadFault where
  | notFound
  | isFolder
  | notFolder
  | notText
  | other (details : String)
deriving DecidableEq

def ReadFault.words : ReadFault → String
  | .notFound => "No such file or directory (os error 2)"
  | .isFolder => "Is a directory (os error 21)"
  | .notFolder => "Not a directory (os error 20)"
  | .notText => "stream did not contain valid UTF-8"
  | .other details => details

def decode (bytes : ByteArray) : Except ReadFault String :=
  match String.fromUTF8? bytes with
  | some text => .ok text
  | none => .error .notText

/-- What a folder holds under a name: a file with its bytes, or a folder. -/
inductive Content where
  | file (bytes : ByteArray)
  | folder

/-- A folder: what it holds, by the components of the path from it. -/
structure Folder where
  contents : List (List String × Content)

namespace Folder

/-- A place that a path leads to: one in the folder, or one outside, of which nothing is known but
that folders can be left upwards. -/
inductive Place where
  | inside (path : List String) (content : Content)
  | outside

/-- What is at a path in the folder. A folder on the way to something held is there too. -/
def content? (f : Folder) (path : List String) : Option Content :=
  if path = [] then some .folder
  else
    match f.contents.find? (·.1 = path) with
    | some (_, c) => some c
    | none => if f.contents.any (path.isPrefixOf ·.1) then some .folder else none

def place (f : Folder) (path : List String) : Except ReadFault Place :=
  match f.content? path with
  | some c => .ok (.inside path c)
  | none => .error .notFound

/-- The place that a component leads to from a place, which must be a folder. -/
def follow (f : Folder) (component : String) : Place → Except ReadFault Place
  | .inside _ (.file _) => .error .notFolder
  | .inside path .folder =>
    if component = "" ∨ component = "." then .ok (.inside path .folder)
    else if component = ".." then if path = [] then .ok .outside else f.place path.dropLast
    else f.place (path ++ [component])
  | .outside =>
    if component = "" ∨ component = "." ∨ component = ".." then .ok .outside
    else .error .notFound

def followAll (f : Folder) (place : Place) : List String → Except ReadFault Place
  | [] => .ok place
  | c :: rest =>
    match f.follow c place with
    | .error e => .error e
    | .ok next => f.followAll next rest

/-- The place that a path leads to from the folder; a path that starts with a slash starts outside. -/
def locate (f : Folder) (path : String) : Except ReadFault Place :=
  match Path.components path with
  | "" :: rest => f.followAll .outside rest
  | cs => f.followAll (.inside [] .folder) cs

def read (f : Folder) (path : String) : Except ReadFault String :=
  match f.locate path with
  | .error e => .error e
  | .ok (.inside _ (.file bytes)) => decode bytes
  | .ok _ => .error .isFolder

end Folder

end Command
end EchoScript
