/-!
# Paths

A path is the text that a user gave or that was built from one; it is kept as it is, because
messages show it. What counts of it are its components: a path may start at the root directory or,
when it starts with the name `.`, at the working directory, and its names follow. A name that is
empty or `.` leads nowhere and does not count further on.
-/

namespace LintTypes.Path

/-- The path that leads on from `base` by the path `rest`; an absolute `rest` stands alone. -/
def join (base rest : String) : String :=
  if rest.startsWith "/" || base.isEmpty then rest
  else if base.endsWith "/" then base ++ rest
  else base ++ "/" ++ rest

/-- The pieces of a path between its slashes. -/
def pieces : List Char → List (List Char)
  | [] => [[]]
  | c :: rest =>
    if c = '/' then [] :: pieces rest
    else
      match pieces rest with
      | [] => [[c]]
      | piece :: others => (c :: piece) :: others

/-- Whether a piece leads nowhere. -/
def isIdle (piece : List Char) : Bool := piece = [] || piece = ['.']

/-- Where a path starts. -/
inductive Start where
  /-- At the root directory. -/
  | root
  /-- At the working directory, with a `.` that says so. -/
  | here
  /-- At the working directory. -/
  | plain
deriving DecidableEq, Repr

namespace Start

/-- How the start is written. -/
def text : Start → List Char
  | root => ['/']
  | here => ['.']
  | plain => []

end Start

/-- The start of a path and the text that follows it. -/
def split : List Char → Start × List Char
  | '/' :: rest => (.root, rest)
  | ['.'] => (.here, [])
  | '.' :: '/' :: rest => (.here, '/' :: rest)
  | path => (.plain, path)

/-- The pieces of the paths above a path, whose own pieces are given; all pieces stand innermost
first. With each piece that leads somewhere also those before it go that do not. -/
def piecesAbove : List (List Char) → List (List (List Char))
  | [] => []
  | piece :: outer =>
    if isIdle piece then piecesAbove outer else outer.dropWhile isIdle :: piecesAbove outer

/-- The paths above a path, each without the last component of the one before. -/
def ancestors (path : String) : List String :=
  let (start, rest) := split path.toList
  (piecesAbove (pieces rest).reverse).map (fun kept =>
      String.ofList (start.text ++ ['/'].intercalate kept.reverse))
    ++ if start = .here then [""] else []

/-- The path without its last component; nothing if it has none that could go. -/
def parent? (path : String) : Option String := (ancestors path).head?

/-- A component of a path. -/
inductive Component where
  /-- The root directory. -/
  | root
  /-- The working directory. -/
  | here
  /-- The directory above. -/
  | above
  /-- The entry of that name. -/
  | name (text : String)
deriving DecidableEq, Repr

namespace Component

/-- The place of a component among others: by its kind, and names by their text. -/
def key : Component → Nat × String
  | root => (0, "")
  | here => (1, "")
  | above => (2, "")
  | name text => (3, text)

/-- Whether a component comes before another one. -/
def before (first second : Component) : Bool :=
  first.key.1 < second.key.1 || (first.key.1 == second.key.1 && first.key.2 < second.key.2)

end Component

/-- The components of a path. -/
def components (path : String) : List Component :=
  let (start, rest) := split path.toList
  let first := match start with
    | .root => [.root]
    | .here => [.here]
    | .plain => []
  first ++ ((pieces rest).filter fun piece => !isIdle piece).map fun piece =>
    if piece = ['.', '.'] then .above else .name (String.ofList piece)

/-- Whether a path comes before another one or has the same components. -/
def le (first second : String) : Bool :=
  go (components first) (components second)
where
  /-- Compares component by component; the end comes before everything. -/
  go : List Component → List Component → Bool
  | [], _ => true
  | _ :: _, [] => false
  | a :: as, b :: bs => a.before b || (a = b && go as bs)

end LintTypes.Path
