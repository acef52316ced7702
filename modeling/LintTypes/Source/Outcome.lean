/-!
# Reading text with a trace

A `Parser` reads a value off the front of a text. When it cannot, it leaves a trace: notes on what
was expected, the innermost first. A miss lets another way of reading be tried; once a construct has
been recognised for certain, `commit` turns misses into breaks, which nothing recovers from.

Alternatives, optional parts and repetitions take a miss as their cue and drop its trace, so a trace
that reaches the outside always belongs to a part that had to be there.

Every parser is told a bound: a number that is greater than the length of the text. Since no part
that is repeated or nested is empty, nothing is repeated or nested more often than that, and so the
bound makes reading end without ever showing in its outcome. `Parser.run` takes one more than the
length as the bound.
-/

namespace LintTypes.Source

/-- What was expected at a place. -/
inductive Expectation where
  /-- This very character. -/
  | character (c : Char)
  /-- The construct of this name. -/
  | construct (name : String)
  /-- A fixed piece of text. -/
  | text
  /-- A character of a certain kind. -/
  | kind
  /-- A digit. -/
  | digit
  /-- The absence of something that is there. -/
  | absence
  /-- One of several alternatives. -/
  | alternatives
  /-- The end of the text. -/
  | endOfText
deriving DecidableEq, Repr

/-- An expectation and its place. -/
structure Note where
  /-- The text from the place on. -/
  rest : List Char
  /-- What was expected there. -/
  expected : Expectation
deriving DecidableEq, Repr

/-- Why a text could not be read, the innermost note first. -/
abbrev Trace := List Note

/-- The result of reading from the front of a text. -/
inductive Outcome (α : Type) where
  /-- A value was read, and `rest` is left. -/
  | done (value : α) (rest : List Char)
  /-- The text does not start like this; something else may be tried. -/
  | missed (trace : Trace)
  /-- The text starts like this but goes wrong later. -/
  | broken (trace : Trace)
deriving DecidableEq, Repr

/-- A way to read a value off the front of a text, given a bound on its length. -/
def Parser (α : Type) : Type := Nat → List Char → Outcome α

namespace Parser

variable {α β : Type}

/-- Reads nothing and yields `value`. -/
protected def pure (value : α) : Parser α := fun _ text => .done value text

/-- Reads with `p`, and then with what `f` makes of its value. -/
protected def bind (p : Parser α) (f : α → Parser β) : Parser β := fun bound text =>
  match p bound text with
  | .done value rest => f value bound rest
  | .missed trace => .missed trace
  | .broken trace => .broken trace

instance : Monad Parser where
  pure := Parser.pure
  bind := Parser.bind

/-- Adds a note at the current place to the trace of `p`, if it leaves one. -/
def within (construct : String) (p : Parser α) : Parser α := fun bound text =>
  match p bound text with
  | .done value rest => .done value rest
  | .missed trace => .missed (trace ++ [⟨text, .construct construct⟩])
  | .broken trace => .broken (trace ++ [⟨text, .construct construct⟩])

/-- Turns a miss of `p` into a break. -/
def commit (p : Parser α) : Parser α := fun bound text =>
  match p bound text with
  | .missed trace => .broken trace
  | outcome => outcome

/-- Reads with `p`, or reads nothing where `p` misses. -/
def optional (p : Parser α) : Parser (Option α) := fun bound text =>
  match p bound text with
  | .done value rest => .done (some value) rest
  | .missed _ => .done none text
  | .broken trace => .broken trace

/-- Reads nothing, and misses where `p` could read. -/
def absent (p : Parser α) : Parser Unit := fun bound text =>
  match p bound text with
  | .done _ _ => .missed [⟨text, .absence⟩]
  | .missed _ => .done () text
  | .broken trace => .broken trace

/-- Reads with the first of the parsers that does not miss. When all miss, the trace of the last one
is kept, with a note at the current place. -/
def firstOf (last : Parser α) : List (Parser α) → Parser α
  | [] => fun bound text =>
    match last bound text with
    | .missed trace => .missed (trace ++ [⟨text, .alternatives⟩])
    | outcome => outcome
  | p :: others => fun bound text =>
    match p bound text with
    | .missed _ => firstOf last others bound text
    | outcome => outcome

/-- Reads with `p` as often as it does not miss, but no more than `count` times. -/
def upTo (count : Nat) (p : Parser α) : Parser (List α) := fun bound text =>
  match count with
  | 0 => .done [] text
  | count + 1 =>
    match p bound text with
    | .missed _ => .done [] text
    | .broken trace => .broken trace
    | .done value rest =>
      match upTo count p bound rest with
      | .done values rest => .done (value :: values) rest
      | .missed trace => .missed trace
      | .broken trace => .broken trace

/-- Reads with `p` as often as it does not miss. -/
def many (p : Parser α) : Parser (List α) := fun bound text => upTo bound p bound text

/-- Reads with `p` once or more, with `separator` in between. A separator that nothing follows is
left in the text. -/
def sepBy1 (p : Parser α) (separator : Parser β) : Parser (List α) := do
  let first ← p
  let others ← many (do let _ ← separator; p)
  return first :: others

/-- Reads with `p` any number of times, with `separator` in between. -/
def sepBy (p : Parser α) (separator : Parser β) : Parser (List α) := do
  return (← optional (sepBy1 p separator)).getD []

/-- Reads the character `c`. -/
def character (c : Char) : Parser Unit := fun _ text =>
  match text with
  | d :: rest => if d = c then .done () rest else .missed [⟨text, .character c⟩]
  | [] => .missed [⟨[], .character c⟩]

/-- Reads nothing, at the end of the text only. -/
def endOfText : Parser Unit := fun _ text =>
  if text = [] then .done () [] else .missed [⟨text, .endOfText⟩]

/-- Reads from the front of a text. -/
def run (p : Parser α) (text : List Char) : Outcome α := p (text.length + 1) text

end Parser

end LintTypes.Source
