import LintTypes.Text.Printable

/-!
# Texts quoted for messages

Messages show a text between double quotes, with everything escaped that could not be seen or would
end the text: tabs, line ends and the null character by a letter, a backslash or double quote by a
backslash, and all other characters that are not printable by their hexadecimal code.
-/

namespace LintTypes.DebugText

/-- The lower-case hexadecimal digits of a number. -/
def hex (n : Nat) : List Char := Nat.toDigits 16 n

/-- One character of a quoted text. -/
def escapeChar (c : Char) : List Char :=
  match c with
  | '\x00' => ['\\', '0']
  | '\t' => ['\\', 't']
  | '\r' => ['\\', 'r']
  | '\n' => ['\\', 'n']
  | '"' => ['\\', '"']
  | '\\' => ['\\', '\\']
  | c =>
    if Printable.isPrintable c then [c]
    else ['\\', 'u', '{'] ++ hex c.toNat ++ ['}']

/-- The text between double quotes. -/
def quoted (text : String) : String :=
  "\"" ++ String.ofList (text.toList.flatMap escapeChar) ++ "\""

end LintTypes.DebugText
