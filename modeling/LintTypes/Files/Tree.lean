import LintTypes.Entries
import LintTypes.Files.Error
import LintTypes.Files.Path

/-!
# File trees

A tree of directories and files with a working directory, and what happens when a path is followed
in it. A path is walked name by name; every name but the last must lead to a directory. A path that
ends with a slash, or in `.` or `..`, stands for a directory.

`FileTree.read`, `FileTree.write` and `FileTree.makeDirectory` act on the place that a path leads
to.
-/

namespace LintTypes

/-- What a file holds. -/
inductive Contents where
  /-- A text. -/
  | text (value : String)
  /-- Bytes that are not the UTF-8 form of a text. -/
  | bytes (values : List UInt8)
deriving DecidableEq, Repr

/-- What there is at a place. -/
inductive FileNode where
  /-- A directory. -/
  | directory
  /-- A file. -/
  | file (contents : Contents)
deriving DecidableEq, Repr

/-- A place: the names on the way to the root directory, the innermost first. -/
abbrev Location := List String

/-- A tree of directories and files. -/
structure FileTree where
  /-- What there is at the places below the root directory. -/
  entries : List (Location × FileNode) := []
  /-- Where relative paths start. -/
  workingDirectory : Location := []
deriving Repr

namespace FileTree

/-- What there is at a place. The root directory is always there. -/
def node? (tree : FileTree) : Location → Option FileNode
  | [] => some .directory
  | location => tree.entries.lookup location

/-- The tree with something put at a place, in the place of what was there. -/
def put (tree : FileTree) (location : Location) (node : FileNode) : FileTree :=
  { tree with entries := Entries.insert location node tree.entries }

/-- The names in a directory. -/
def names (tree : FileTree) (directory : Location) : List String :=
  tree.entries.filterMap fun
    | (name :: parent, _) => if parent = directory then some name else none
    | ([], _) => none

/-! ## Following paths -/

/-- The number of bytes that a name may have. -/
def maxNameSize : Nat := 255

/-- The number of bytes that a path may have. -/
def maxPathSize : Nat := 4095

/-- Where a path leads. -/
inductive Destination where
  /-- To a directory. -/
  | directory (location : Location)
  /-- To a file. -/
  | file (location : Location) (contents : Contents)
  /-- To a place in a directory where there is nothing. -/
  | vacant (location : Location)
deriving DecidableEq, Repr

namespace Destination

/-- The destination with a given node at a place. -/
def ofNode (location : Location) : Option FileNode → Destination
  | some .directory => directory location
  | some (.file contents) => file location contents
  | none => vacant location

end Destination

/-- Where one piece of a path leads from a directory. -/
def step (tree : FileTree) (location : Location) (piece : String) : Except FileError Destination :=
  if piece = "." then .ok (.directory location)
  else if piece = ".." then .ok (.directory location.tail)
  else if piece.utf8ByteSize > maxNameSize then .error .nameTooLong
  else .ok (.ofNode (piece :: location) (tree.node? (piece :: location)))

/-- Where a path leads that goes on from a directory by the given pieces. -/
def walk (tree : FileTree) (location : Location) : List String → Except FileError Destination
  | [] => .ok (.directory location)
  | [piece] => tree.step location piece
  | piece :: pieces => do
    match ← tree.step location piece with
    | .directory location => tree.walk location pieces
    | .file .. => .error .notADirectory
    | .vacant _ => .error .notFound

/-- The pieces of a path that count for the way: all that are not empty. -/
def pathPieces (path : String) : List String :=
  ((Path.pieces path.toList).filter (· ≠ [])).map String.ofList

/-- Where a path leads. -/
def follow (tree : FileTree) (path : String) : Except FileError Destination :=
  if path.contains '\x00' then .error .nullInPath
  else if path.isEmpty then .error .notFound
  else if path.utf8ByteSize > maxPathSize then .error .nameTooLong
  else tree.walk (if path.startsWith "/" then [] else tree.workingDirectory) (pathPieces path)

/-! ## Reading and writing -/

/-- The text of the file at a path. -/
def read (tree : FileTree) (path : String) : Except FileError String := do
  match ← tree.follow path with
  | .directory _ => .error .isADirectory
  | .vacant _ => .error .notFound
  | .file _ contents =>
    if path.endsWith "/" then .error .notADirectory
    else
      match contents with
      | .text value => return value
      | .bytes _ => .error .notText

/-- The tree with a text written to the file at a path; the file is made if it is not there. -/
def write (tree : FileTree) (path text : String) : Except FileError FileTree := do
  match ← tree.follow path with
  | .directory _ => .error .isADirectory
  | .vacant location | .file location _ =>
    if path.endsWith "/" then .error .isADirectory
    else return tree.put location (.file (.text text))

/-- The tree with a directory made at a path. -/
def makeDirectory (tree : FileTree) (path : String) : Except FileError FileTree := do
  match ← tree.follow path with
  | .directory _ | .file .. => .error .occupied
  | .vacant location => return tree.put location .directory

/-- The directory at a path. -/
def directory? (tree : FileTree) (path : String) : Option Location :=
  match tree.follow path with
  | .ok (.directory location) => some location
  | _ => none

/-- Whether there is something at a path. -/
def isPresent (tree : FileTree) (path : String) : Bool :=
  match tree.follow path with
  | .ok (.directory _) => true
  | .ok (.file ..) => !path.endsWith "/"
  | _ => false

end FileTree

end LintTypes
