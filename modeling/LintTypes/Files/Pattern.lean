/-!
# Path patterns

A pattern stands for paths. It is cut at its slashes into segments. In a segment `?` stands for a
character, `*` for any text and a set in brackets for one of its characters, or for any other
character if the set starts with `!`; the segment `**` stands for directories of any depth.
Everything else stands for itself.

`Pattern.ofText` cuts a pattern, or says what is wrong with it and at which character. The pattern
is judged as a whole first and then segment by segment, so a set may not reach over a slash.
-/

namespace LintTypes

/-- Some of the characters in a set. -/
inductive CharRange where
  /-- One character. -/
  | only (c : Char)
  /-- The characters from one to another. -/
  | between (first last : Char)
deriving DecidableEq, Repr

namespace CharRange

/-- The ranges of a set: three characters with `-` in the middle are a range. -/
def ofChars : List Char → List CharRange
  | first :: '-' :: last :: rest => between first last :: ofChars rest
  | c :: rest => only c :: ofChars rest
  | [] => []

/-- Whether a character is in the range. -/
def holds (c : Char) : CharRange → Bool
  | only other => c = other
  | between first last => first ≤ c && c ≤ last

end CharRange

/-- A piece of a pattern. -/
inductive PatternPiece where
  /-- This character. -/
  | char (c : Char)
  /-- Any character. -/
  | anyChar
  /-- Any text. -/
  | anyText
  /-- A character in one of the ranges. -/
  | oneOf (ranges : List CharRange)
  /-- A character in none of the ranges. -/
  | noneOf (ranges : List CharRange)
  /-- Directories of any depth. -/
  | anyDepth
deriving DecidableEq, Repr

/-- What is wrong with a pattern. -/
inductive PatternProblem where
  /-- More than two `*` in a row. -/
  | wildcards
  /-- A `**` that is not a segment of its own. -/
  | depth
  /-- A set that is not closed or is empty. -/
  | range
deriving DecidableEq, Repr

namespace PatternProblem

/-- The words for the problem. -/
def message : PatternProblem → String
  | wildcards => "wildcards are either regular `*` or recursive `**`"
  | depth => "recursive wildcards must form a single path component"
  | range => "invalid range pattern"

end PatternProblem

/-- A fault of a pattern. -/
structure PatternFault where
  /-- The index of the character at which it shows. -/
  position : Nat
  /-- What is wrong. -/
  problem : PatternProblem
deriving DecidableEq, Repr

namespace PatternFault

/-- The fault in words. -/
def message (fault : PatternFault) : String :=
  "Pattern syntax error near position " ++ toString fault.position ++ ": " ++ fault.problem.message

end PatternFault

namespace PatternPiece

/-- The characters up to a closing bracket, and the rest behind it. The first character may be a
bracket itself. -/
def readMembers? : List Char → Option (List Char × List Char)
  | [] => none
  | first :: others =>
    match others.dropWhile (· ≠ ']') with
    | [] => none
    | _ :: rest => some (first :: others.takeWhile (· ≠ ']'), rest)

theorem length_of_readMembers? {text chars rest : List Char}
    (h : readMembers? text = some (chars, rest)) : rest.length < text.length := by
  unfold readMembers? at h
  split at h
  · simp at h
  · rename_i first others
    have bound := (List.dropWhile_suffix (l := others) (· ≠ ']')).length_le
    split at h
    · simp at h
    · simp_all
      omega

/-- The set behind an opening bracket: whether it is negated, its characters, and the rest behind
the closing bracket. -/
def readSet? : List Char → Option (Bool × List Char × List Char)
  | '!' :: text => (readMembers? text).map (true, ·)
  | text => (readMembers? text).map (false, ·)

theorem length_of_readSet? {text chars rest : List Char} {negated : Bool}
    (h : readSet? text = some (negated, chars, rest)) : rest.length < text.length := by
  unfold readSet? at h
  split at h <;> obtain ⟨_, found, eq⟩ := Option.map_eq_some_iff.1 h <;> cases eq
  · exact Nat.lt_succ_of_lt (length_of_readMembers? found)
  · exact length_of_readMembers? found

/-- The pieces of a text that stands at a position of the pattern; `atStart` says that a segment
starts there. -/
def parse (position : Nat) (atStart : Bool) (text : List Char) :
    Except PatternFault (List PatternPiece) :=
  match text with
  | [] => .ok []
  | '*' :: '*' :: '*' :: _ => .error ⟨position + 2, .wildcards⟩
  | '*' :: '*' :: rest =>
    if !atStart then .error ⟨position - 1, .depth⟩
    else
      match rest with
      | [] => .ok [anyDepth]
      | '/' :: rest => do return anyDepth :: (← parse (position + 3) true rest)
      | _ => .error ⟨position + 2, .depth⟩
  | '*' :: rest => do return anyText :: (← parse (position + 1) false rest)
  | '?' :: rest => do return anyChar :: (← parse (position + 1) false rest)
  | '[' :: rest =>
    match _eq : readSet? rest with
    | none => .error ⟨position, .range⟩
    | some (negated, chars, after) => do
      let ranges := CharRange.ofChars chars
      let size := chars.length + if negated then 3 else 2
      return (if negated then noneOf ranges else oneOf ranges)
        :: (← parse (position + size) false after)
  | c :: rest => do return char c :: (← parse (position + 1) (c = '/') rest)
termination_by text.length
decreasing_by
  · simp only [List.length_cons]; omega
  · exact Nat.lt_succ_self _
  · exact Nat.lt_succ_self _
  · exact Nat.lt_succ_of_lt (length_of_readSet? _eq)
  · exact Nat.lt_succ_self _

/-- Whether a test holds of a text or of what is left of it after some of its characters. -/
def anySuffix (test : List Char → Bool) : List Char → Bool
  | [] => test []
  | c :: rest => test (c :: rest) || anySuffix test rest

/-- Whether pieces stand for a name. No name is as deep as `**`. -/
def accepts : List PatternPiece → List Char → Bool
  | [], name => name.isEmpty
  | anyText :: pieces, name => anySuffix (accepts pieces) name
  | anyDepth :: _, _ => false
  | _ :: _, [] => false
  | char other :: pieces, c :: name => c = other && accepts pieces name
  | anyChar :: pieces, _ :: name => accepts pieces name
  | oneOf ranges :: pieces, c :: name => ranges.any (·.holds c) && accepts pieces name
  | noneOf ranges :: pieces, c :: name => !ranges.any (·.holds c) && accepts pieces name

/-- The text that pieces stand for, if they are nothing but characters. -/
def literal? : List PatternPiece → Option (List Char)
  | [] => some []
  | char c :: pieces => (literal? pieces).map (c :: ·)
  | _ :: _ => none

end PatternPiece

/-- A segment of a pattern. -/
inductive Segment where
  /-- Directories of any depth. -/
  | anyDepth
  /-- This name. -/
  | literal (name : String)
  /-- The names that the pieces stand for. -/
  | names (pieces : List PatternPiece)
deriving DecidableEq, Repr

namespace Segment

/-- The segment with the given pieces. -/
def ofPieces (pieces : List PatternPiece) : Segment :=
  if pieces = [.anyDepth] then anyDepth
  else
    match PatternPiece.literal? pieces with
    | some name => literal (String.ofList name)
    | none => names pieces

/-- Whether the segment stands for a name. -/
def accepts (name : String) : Segment → Bool
  | anyDepth => false
  | literal text => text = name
  | names pieces => PatternPiece.accepts pieces name.toList

/-- The names `.` and `..`, as far as the segment stands for them. They are meant only by a segment
that starts with a point. -/
def dots : Segment → List String
  | names (.char '.' :: pieces) =>
    [".", ".."].filter fun name => PatternPiece.accepts (.char '.' :: pieces) name.toList
  | _ => []

end Segment

/-- A pattern of paths. -/
structure Pattern where
  /-- It starts at the root directory. -/
  isAbsolute : Bool
  /-- The pattern ends with a slash: only directories are meant. -/
  onlyDirectories : Bool
  /-- The segments. -/
  segments : List Segment
deriving DecidableEq, Repr

namespace Pattern

/-- Whether a text has a character with a meaning of its own in patterns; any other text is a path.
-/
def isPattern (text : String) : Bool := text.any fun c => c = '*' || c = '?' || c = '['

/-- The texts between slashes; behind a slash at the end there is none. -/
def cut (text : List Char) : List (List Char) :=
  go [] text
where
  /-- The texts of a text whose first one goes on after `piece`, which is kept backwards. -/
  go (piece : List Char) : List Char → List (List Char)
  | [] => if piece.isEmpty then [] else [piece.reverse]
  | c :: rest => if c = '/' then piece.reverse :: go [] rest else go (c :: piece) rest

/-- The pattern that a text writes. -/
def ofText (text : String) : Except PatternFault Pattern := do
  let _ ← PatternPiece.parse 0 true text.toList
  let isAbsolute := text.startsWith "/"
  let segments ← (cut (text.toList.drop (if isAbsolute then 1 else 0))).mapM fun piece =>
    return Segment.ofPieces (← PatternPiece.parse 0 true piece)
  return { isAbsolute, onlyDirectories := text.endsWith "/", segments }

end Pattern

end LintTypes
