import LintTypes.Text.HexDigit
import LintTypes.Types.Basic

/-!
# Quoted strings

How a string is written as a literal. A literal is delimited by `'` or `"`; the preferred one gives
way when the text holds more of it than of the other, so that no choice needs fewer escapes.
Backslashes, the delimiter and control characters are escaped; all else stands for itself.

`StringLiteral.unescape?` is the table of the reader: what a character after a backslash stands
for.
-/

namespace LintTypes.StringLiteral

/-- The control characters: U+0000 to U+001F and U+007F to U+009F. -/
def isControl (c : Char) : Bool :=
  c.toNat < 0x20 || (0x7F ≤ c.toNat && c.toNat < 0xA0)

/-- The digit of a value below sixteen, in lower case. -/
def hexDigit (n : Nat) : Char :=
  Char.ofNat (if n < 10 then '0'.toNat + n else 'a'.toNat + (n - 10))

/-- The four lower-case hexadecimal digits of a value below 65536. -/
def fourHexDigits (n : Nat) : List Char :=
  [hexDigit (n / 4096 % 16), hexDigit (n / 256 % 16), hexDigit (n / 16 % 16), hexDigit (n % 16)]

/-- The delimiter for `text`: the preferred one, unless the text holds more of it than of the
other. -/
def delimiter (preferSingle : Bool) (text : List Char) : Char :=
  let preferred := if preferSingle then '\'' else '"'
  let other := if preferSingle then '"' else '\''
  if text.count preferred > text.count other then other else preferred

/-- One character inside a literal delimited by `quote`. -/
def escapeChar (quote c : Char) : List Char :=
  match c with
  | '\\' => ['\\', '\\']
  | '\n' => ['\\', 'n']
  | '\r' => ['\\', 'r']
  | '\t' => ['\\', 't']
  | '\x08' => ['\\', 'b']
  | '\x0c' => ['\\', 'f']
  | c =>
    if c = quote then ['\\', c]
    else if isControl c then '\\' :: 'u' :: fourHexDigits c.toNat
    else [c]

/-- `text` between two delimiters. -/
def encode (preferSingle : Bool) (text : List Char) : List Char :=
  let quote := delimiter preferSingle text
  quote :: (text.flatMap (escapeChar quote) ++ [quote])

/-- The literal for `text`. -/
def quoted (preferSingle : Bool) (text : String) : String :=
  String.ofList (encode preferSingle text.toList)

/-- The character with the code of four hexadecimal digits; surrogates are no characters. -/
def charOfHex? (a b c d : Char) : Option Char := do
  let code ← hexNumber? [a, b, c, d]
  if code.isValidChar then some (Char.ofNat code) else none

/-- What follows a backslash: the character that it stands for and the text after it. -/
def unescape? : List Char → Option (Char × List Char)
  | 'u' :: a :: b :: c :: d :: rest => do return (← charOfHex? a b c d, rest)
  | '\\' :: rest => some ('\\', rest)
  | '\'' :: rest => some ('\'', rest)
  | '"' :: rest => some ('"', rest)
  | '/' :: rest => some ('/', rest)
  | 'n' :: rest => some ('\n', rest)
  | 'r' :: rest => some ('\r', rest)
  | 't' :: rest => some ('\t', rest)
  | 'b' :: rest => some ('\x08', rest)
  | 'f' :: rest => some ('\x0c', rest)
  | _ => none

end LintTypes.StringLiteral
