import LintTypes.Files.Access
import LintTypes.Files.Pattern

/-!
# Searching for paths

The paths that a pattern stands for, in the order of their components. A search goes down from the
root directory or from the working directory, one segment after the other. Where a segment writes a
name, only that entry is looked at; elsewhere the names in the directory are compared with the
segment. The segment `**` stays in use in the directories below.
-/

namespace LintTypes.Pattern

open FileAccess

variable {m : Type → Type} [Monad m] [FileAccess m]

/-- The path to an entry of a directory. An entry of the working directory goes by its name. -/
def entryPath (directory name : String) : String :=
  if Path.components directory = [.here] then name else Path.join directory name

/-- Whether an entry that is written by its name is there; `path` leads to it. -/
def hasEntry (directory name path : String) : m Bool :=
  if name = "." || name = ".." then isDirectory directory else isPresent path

/-- The results of a search in each of several places, in order. -/
def gather {α : Type} (search : α → m (List String)) : List α → m (List String)
  | [] => return []
  | place :: places => return (← search place) ++ (← gather search places)

/-- What is found by segments at an entry of a directory, when `search` finds what more segments
stand for. The segment `**` also stands for no directory at all, and at the end for the directories
that it leads through. -/
def visit (search : List Segment → String → m (List String)) (directory name : String) :
    List Segment → m (List String)
  | [] => return []
  | .anyDepth :: segments => do
    let path := entryPath directory name
    let others := segments.dropWhile (· = .anyDepth)
    let descends ← isDirectory path
    let inside ← if descends then search (.anyDepth :: others) path else pure []
    match others with
    | [] => return if descends then path :: inside else inside
    | segment :: segments =>
      if segment.accepts name then return inside ++ (← search segments path) else return inside
  | segment :: segments =>
    if segment.accepts name then search segments (entryPath directory name) else return []

/-- What is found by segments from a path, in so many steps. -/
def search (onlyDirectories : Bool) : Nat → List Segment → String → m (List String)
  | _, [], path => do
    return if !onlyDirectories || (← isDirectory path) then [path] else []
  | 0, _ :: _, _ => return []
  | steps + 1, segment :: segments, directory => do
    let onward := fun segments path => search onlyDirectories steps segments path
    match segment with
    | .literal name =>
      let path := entryPath directory name
      if ← hasEntry directory name path then onward segments path else return []
    | _ =>
      match ← names? directory with
      | none => return []
      | some names =>
        let entries ← gather (fun name => visit onward directory name (segment :: segments)) names
        let dots ← gather (fun name => onward segments (Path.join directory name)) segment.dots
        return entries ++ dots

/-- The paths that the pattern stands for. Each step of the search either leaves a segment behind or
goes down into a directory, and no path is long enough for more steps than are allowed. -/
def paths (pattern : Pattern) : m (List String) := do
  let steps := pattern.segments.length + FileTree.maxPathSize
  let start := if pattern.isAbsolute then "/" else "."
  return (← search pattern.onlyDirectories steps pattern.segments start).mergeSort Path.le

end LintTypes.Pattern
