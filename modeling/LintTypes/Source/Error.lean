import LintTypes.Source.Outcome
import LintTypes.Text.Blank

/-!
# Messages about unreadable sources

A trace is shown note by note, the innermost first: the number of the note, the line that it is on,
and a caret below the place.
-/

namespace LintTypes.Source

/-- A source that could not be read, and the trace of the attempt. -/
structure SourceError where
  /-- The whole source. -/
  source : List Char
  /-- What was expected, and where. -/
  trace : Trace
deriving DecidableEq, Repr

namespace Expectation

/-- The name that an expectation is reported under. -/
def label : Expectation → String
  | .character c => "'" ++ c.toString ++ "'"
  | .construct name => name
  | .text => "Tag"
  | .kind => "Satisfy"
  | .digit => "Digit"
  | .absence => "Not"
  | .alternatives => "Alt"
  | .endOfText => "Eof"

end Expectation

namespace SourceError

/-- The characters of the last line of `before`. -/
def lastLine (before : List Char) : List Char :=
  (before.reverse.takeWhile (· != '\n')).reverse

/-- The caret below the place after `before`, and the line that it points into. -/
def pointer (before after : List Char) : String :=
  let start := lastLine before
  let line := Blank.trimEnd (start ++ after.takeWhile (· != '\n'))
  let column := (String.ofList start).utf8ByteSize
  String.ofList line ++ "\n" ++ String.ofList (List.replicate column ' ') ++ "^\n"

/-- One note of a trace as text; `index` is its number. -/
def noteMessage (source : List Char) (index : Nat) (note : Note) : String :=
  let before := source.take (source.length - note.rest.length)
  let after := note.rest
  let line := toString (before.count '\n' + 1)
  let start := toString index ++ ": "
  match note.expected with
  | .character c =>
    if source.isEmpty then
      start ++ "expected '" ++ c.toString ++ "', got empty input\n\n"
    else
      let found := match after with
        | actual :: _ => "found " ++ actual.toString
        | [] => "got end of input"
      start ++ "at line " ++ line ++ ":\n" ++ pointer before after
        ++ "expected '" ++ c.toString ++ "', " ++ found ++ "\n\n"
  | expected =>
    if source.isEmpty then
      start ++ "in " ++ expected.label ++ ", got empty input\n\n"
    else
      start ++ "at line " ++ line ++ ", in " ++ expected.label ++ ":\n" ++ pointer before after
        ++ "\n"

/-- The whole trace as text. -/
def message (error : SourceError) : String :=
  String.join (error.trace.zipIdx.map fun (note, index) => noteMessage error.source index note)

end SourceError

end LintTypes.Source
