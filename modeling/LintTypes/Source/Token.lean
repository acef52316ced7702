import LintTypes.Source.Outcome
import LintTypes.Text.Identifier
import LintTypes.Types.Quoted

/-!
# Tokens of declaration sources

Blanks and comments, symbols, reserved words, identifiers and the literals. Every token may have
blanks and complete comments before it; where it is missing, the note stands behind those.
-/

namespace LintTypes.Source

/-! ## Blanks and comments -/

/-- Space, tab, carriage return and line feed. -/
def isSpace (c : Char) : Bool := c == ' ' || c == '\t' || c == '\r' || c == '\n'

/-- The text after the first end-of-comment mark, if there is one. -/
def afterCommentEnd? : List Char → Option (List Char)
  | '*' :: '/' :: rest => some rest
  | _ :: rest => afterCommentEnd? rest
  | [] => none

theorem length_afterCommentEnd?_lt {text rest : List Char} (h : afterCommentEnd? text = some rest) :
    rest.length < text.length := by
  fun_induction afterCommentEnd? text with
  | case1 =>
    cases h
    simp only [List.length_cons]
    omega
  | case2 _ _ _ ih => exact Nat.lt_succ_of_lt (ih h)
  | case3 => simp at h

/-- The text after all blanks and complete comments at its front. A comment that is not closed is
no blank. -/
def skipBlanks (text : List Char) : List Char :=
  match text with
  | '/' :: '/' :: rest => skipBlanks (rest.dropWhile (· != '\n'))
  | '/' :: '*' :: rest =>
    match _closed : afterCommentEnd? rest with
    | some after => skipBlanks after
    | none => text
  | c :: rest => if isSpace c then skipBlanks rest else text
  | [] => []
termination_by text.length
decreasing_by
  · have := (List.dropWhile_sublist (· != '\n') (l := rest)).length_le
    simp only [List.length_cons]; omega
  · have := length_afterCommentEnd?_lt _closed
    simp only [List.length_cons]; omega
  · simp

/-! ## Symbols, words and names -/

namespace Parser

/-- Reads with `p` behind blanks. -/
def lexeme {α : Type} (p : Parser α) : Parser α := fun bound text => p bound (skipBlanks text)

/-- Reads exactly `expected`. -/
def literally (expected : List Char) : Parser Unit := fun _ text =>
  if expected.isPrefixOf text then .done () (text.drop expected.length)
  else .missed [⟨text, .text⟩]

/-- Reads a symbol. -/
def symbol (text : String) : Parser Unit := lexeme (literally text.toList)

/-- Reads the name characters at the front; there must be a letter, `_` or `$` first. -/
def nameChars : Parser (List Char) := fun _ text =>
  match text with
  | c :: rest =>
    if isNameStart c then .done (c :: rest.takeWhile isNameChar) (rest.dropWhile isNameChar)
    else .missed [⟨text, .kind⟩]
  | [] => .missed [⟨[], .kind⟩]

/-- Reads one character that may occur in a name. -/
def nameChar : Parser Unit := fun _ text =>
  match text with
  | c :: rest => if isNameChar c then .done () rest else .missed [⟨text, .kind⟩]
  | [] => .missed [⟨[], .kind⟩]

/-- Reads a reserved word, which no name character may follow. -/
def word (text : String) : Parser Unit := lexeme do
  literally text.toList
  absent nameChar

/-- Reads an identifier. -/
def identifier : Parser String := lexeme do
  return String.ofList (← nameChars)

/-- Reads identifiers joined by points, without blanks between them. -/
def dottedName : Parser String := lexeme do
  let parts ← sepBy1 nameChars (character '.')
  return String.ofList (['.'].intercalate parts)

end Parser

/-! ## Literals -/

open StringLiteral (unescape?) in
/-- What follows a backslash is shorter once it is read. -/
theorem length_unescape?_lt {text rest : List Char} {c : Char}
    (h : unescape? text = some (c, rest)) : rest.length < text.length := by
  unfold unescape? at h
  split at h
  · obtain ⟨_, _, read⟩ := Option.bind_eq_some_iff.1 h
    cases read
    simp only [List.length_cons]
    omega
  all_goals cases h
  all_goals exact Nat.lt_succ_self _

/-- The characters of a string literal up to `quote` or the end of the text, with escapes resolved,
and the text from there on; nothing if there is no such escape as one in the literal. -/
def quotedChars? (quote : Char) (text : List Char) : Option (List Char × List Char) :=
  match text with
  | [] => some ([], [])
  | c :: rest =>
    if c = quote then some ([], c :: rest)
    else if c = '\\' then
      match _escape : StringLiteral.unescape? rest with
      | none => none
      | some (escaped, after) => do
        let (body, rest) ← quotedChars? quote after
        return (escaped :: body, rest)
    else do
      let (body, rest) ← quotedChars? quote rest
      return (c :: body, rest)
termination_by text.length
decreasing_by
  · have := length_unescape?_lt _escape
    simp only [List.length_cons]; omega
  · simp

/-- Splits a text into its leading digits and the rest. -/
def splitDigits (text : List Char) : List Char × List Char :=
  (text.takeWhile Char.isDigit, text.dropWhile Char.isDigit)

/-- Splits off a fraction: a point and at least one digit. -/
def splitFraction (text : List Char) : List Char × List Char :=
  match text with
  | '.' :: rest =>
    match splitDigits rest with
    | ([], _) => ([], text)
    | (digits, rest) => ('.' :: digits, rest)
  | _ => ([], text)

/-- Splits off an exponent: `e` or `E`, possibly a sign, and at least one digit. -/
def splitExponent (text : List Char) : List Char × List Char :=
  match text with
  | e :: rest =>
    if e = 'e' ∨ e = 'E' then
      let (sign, unsigned) := match rest with
        | '+' :: rest => (['+'], rest)
        | '-' :: rest => (['-'], rest)
        | rest => ([], rest)
      match splitDigits unsigned with
      | ([], _) => ([], text)
      | (digits, rest) => (e :: (sign ++ digits), rest)
    else ([], text)
  | [] => ([], [])

namespace Parser

/-- Reads a string literal between two equal quotes. A literal with an unknown escape counts as
empty, so its closing quote is missed right after the opening one. -/
def quotedBy (quote : Char) : Parser String := do
  character quote
  let body ← fun _ text =>
    match quotedChars? quote text with
    | some (body, rest) => .done body rest
    | none => .done [] text
  commit (character quote)
  return String.ofList body

/-- Reads a string literal. -/
def stringLiteral : Parser String := lexeme (firstOf (quotedBy '"') [quotedBy '\''])

/-- Reads a number literal as it is written: possibly a `-`, digits, possibly a fraction and an
exponent. -/
def numberLiteral : Parser String := lexeme fun _ text =>
  let (sign, unsigned) := match text with
    | '-' :: rest => (['-'], rest)
    | text => ([], text)
  match splitDigits unsigned with
  | ([], _) => .missed [⟨unsigned, .digit⟩]
  | (digits, rest) =>
    let (fraction, rest) := splitFraction rest
    let (exponent, rest) := splitExponent rest
    .done (String.ofList (sign ++ digits ++ fraction ++ exponent)) rest

end Parser

end LintTypes.Source
