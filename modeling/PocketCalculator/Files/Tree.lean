import PocketCalculator.Files.Basic

/-!
# Directory trees

A directory tree as a value, and the host that reads files from it. A path is resolved from the
root name by name; `.` stays, `..` goes back to where the path came from, and an empty name, as it
arises where two slashes meet or one ends the path, stays as well. Whatever a name is applied to
has to be a directory.
-/

namespace PocketCalculator

inductive Node
  | file (content : Bytes)
  | directory (entries : List (Text × Node))

namespace Node

/-- The longest name of a file, in bytes. -/
def maxNameBytes : Nat := 255

/-- A path is shorter than this, in bytes. -/
def pathBytesBound : Nat := 4096

/-- The names in a path, from the root on. -/
def names (path : Text) : List Text :=
  path.splitOn '/'

/-- The node that names lead to. `parents` are the directories above the node, the nearest
first. -/
def resolve (parents : List Node) (node : Node) : List Text → Except ReadError Node
  | [] => .ok node
  | name :: rest =>
    match node with
    | file _ => .error .notDirectory
    | directory entries =>
      if name = [] || name = ['.'] then resolve parents node rest
      else if name = ['.', '.'] then
        match parents with
        | [] => resolve [] node rest
        | parent :: parents => resolve parents parent rest
      else if maxNameBytes < (encodeUtf8 name).length then .error .nameTooLong
      else
        match entries.lookup name with
        | none => .error .notFound
        | some child => resolve (node :: parents) child rest

def find (root : Node) (path : Text) : Except ReadError Node :=
  if path.contains '\x00' then .error .nulInPath
  else if path = [] then .error .notFound
  else if pathBytesBound ≤ (encodeUtf8 path).length then .error .nameTooLong
  else resolve [] root (names path)

def read (root : Node) (path : Text) : Except ReadError Bytes :=
  match root.find path with
  | .ok (file content) => .ok content
  | .ok (directory _) => .error .isDirectory
  | .error error => .error error

def isPresent (root : Node) (path : Text) : Bool :=
  (root.find path).toOption.isSome

end Node

/-- The host that has the files of a tree and no clipboard. -/
def Node.host (root : Node) (input : Bytes) (configHome home : Option Text) : Host Id where
  read := root.read
  isPresent := root.isPresent
  input := input
  copy := fun _ ↦ .error "there is no clipboard".toList
  configHome := configHome
  home := home

end PocketCalculator
