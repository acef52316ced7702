import LintTypes.Files.Tree

/-!
# Access to files

What the program asks of the place where files are kept. `FileAccess` states it for any monad, so
the same definitions run on the disk and on a `FileTree` that is passed along.

`FileAccess.createDirectories` makes a directory with all that are missing above it.
-/

namespace LintTypes

/-- A monad in which files can be read and written. -/
class FileAccess (m : Type → Type) where
  /-- The text of the file at a path. -/
  read : (path : String) → m (Except FileError String)
  /-- Writes a text to the file at a path; the file is made if it is not there. -/
  write : (path text : String) → m (Except FileError Unit)
  /-- Makes a directory at a path. -/
  makeDirectory : (path : String) → m (Except FileError Unit)
  /-- Whether there is something at a path. -/
  isPresent : (path : String) → m Bool
  /-- The names in the directory at a path; nothing if there is no directory. -/
  names? : (path : String) → m (Option (List String))

namespace FileTree

/-- Replaces the tree that is passed along by an outcome; if there is none, the tree stays. -/
def commit (outcome : FileTree → Except FileError FileTree) :
    StateM FileTree (Except FileError Unit) := fun tree =>
    match outcome tree with
    | .ok changed => (.ok (), changed)
    | .error error => (.error error, tree)

/-- Files in a tree that is passed along. -/
instance : FileAccess (StateM FileTree) where
  read path tree := (tree.read path, tree)
  write path text := commit (·.write path text)
  makeDirectory path := commit (·.makeDirectory path)
  isPresent path tree := (tree.isPresent path, tree)
  names? path tree := ((tree.directory? path).map tree.names, tree)

end FileTree

namespace FileAccess

variable {m : Type → Type} [Monad m] [FileAccess m]

/-- Whether there is a directory at a path. -/
def isDirectory (path : String) : m Bool := do
  return (← names? path).isSome

/-- Makes a directory; one that is there already will do. -/
def ensureDirectory (path : String) : m (Except FileError Unit) := do
  match ← makeDirectory path with
  | .ok () => return .ok ()
  | .error error => return if ← isDirectory path then .ok () else .error error

/-- Makes the first of the directories; if the way to it is missing, the others come before it, each
of them leading to the one before. -/
def createFirst : List String → m (Except FileError Unit)
  | [] => return .ok ()
  | path :: above => do
    if path.isEmpty then return .ok ()
    match ← ensureDirectory path with
    | .error .notFound =>
      match ← createFirst above with
      | .ok () => ensureDirectory path
      | .error error => return .error error
    | outcome => return outcome

/-- Makes the directory at a path, and before it the directories above it that are missing. -/
def createDirectories (path : String) : m (Except FileError Unit) :=
  createFirst (path :: Path.ancestors path)

end FileAccess

end LintTypes
