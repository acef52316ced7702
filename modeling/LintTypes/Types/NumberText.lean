import LintTypes.Text.LowerCase
import LintTypes.Text.DecimalDigit

/-!
# Number literals

Number literals are kept as text. `NumberText.normalize` writes such a text in its normal form:
lower case, no `+` and no leading zeros in the exponent, no zero exponent, a digit before the point,
no trailing zeros beyond the first digit after the point, and no point without digits after it.

Each step changes the first place that it applies to. The text need not be a number: a step that
finds no such place leaves it alone.
-/

namespace LintTypes.NumberText

open DecimalDigit (isDigit)

/-- The characters of a mantissa: digits and points. -/
def isMantissaChar (c : Char) : Bool := isDigit c || c == '.'

/-- Splits off a leading `+` or `-`. -/
def splitSign : List Char → List Char × List Char
  | '+' :: rest => (['+'], rest)
  | '-' :: rest => (['-'], rest)
  | text => ([], text)

/-- Splits a text that starts with a mantissa and `e` into the two sides of the `e`. -/
def splitExponent? (text : List Char) : Option (List Char × List Char) :=
  let (sign, body) := splitSign text
  match body.takeWhile isMantissaChar, body.dropWhile isMantissaChar with
  | d :: mantissa, 'e' :: exponent => some (sign ++ d :: mantissa, exponent)
  | _, _ => none

/-- Drops the leading zeros of a digit string, but not its last digit. -/
def dropLeadingZeros : List Char → Option (List Char)
  | '0' :: rest => some ((dropLeadingZeros rest).getD ('0' :: rest))
  | d :: rest => if isDigit d then some (d :: rest) else none
  | [] => none

/-- Writes the exponent without `+` and without leading zeros. -/
def tidyExponent (text : List Char) : List Char :=
  match splitExponent? text with
  | none => text
  | some (mantissa, exponent) =>
    let (sign, digits) := splitSign exponent
    match dropLeadingZeros digits with
    | none => text
    | some digits => mantissa ++ 'e' :: (sign.filter (· == '-') ++ digits)

/-- Drops an exponent that is zero. -/
def dropZeroExponent (text : List Char) : List Char :=
  match splitExponent? text with
  | none => text
  | some (mantissa, exponent) =>
    let digits := (splitSign exponent).2
    if digits ≠ [] ∧ digits.all (· == '0') then mantissa else text

/-- Writes a zero before a point that comes first. -/
def padLeadingPoint (text : List Char) : List Char :=
  match splitSign text with
  | (sign, '.' :: rest) => sign ++ '0' :: '.' :: rest
  | _ => text

/-- Whether a fraction ends here: at the exponent or at the end of the text. -/
def fractionEnds : List Char → Bool
  | [] => true
  | c :: _ => c == 'e'

/-- The digits of a fraction without trailing zeros; its first digit always stays. -/
def trimFraction : List Char → List Char
  | [] => []
  | d :: digits => d :: (digits.reverse.dropWhile (· == '0')).reverse

/-- Drops the trailing zeros of the first fraction that has some to drop. -/
def dropTrailingZeros : List Char → List Char
  | [] => []
  | c :: rest =>
    let digits := rest.takeWhile isDigit
    let after := rest.dropWhile isDigit
    if c = '.' ∧ fractionEnds after ∧ (trimFraction digits).length < digits.length then
      '.' :: (trimFraction digits ++ after)
    else
      c :: dropTrailingZeros rest

/-- Drops the first point that has no digits after it. -/
def dropTrailingPoint : List Char → List Char
  | [] => []
  | c :: rest => if c = '.' ∧ fractionEnds rest then rest else c :: dropTrailingPoint rest

/-- The normal form of a number literal, on its characters. -/
def normalizeChars (text : List Char) : List Char :=
  let text := Casing.lowerText text
  dropTrailingPoint (dropTrailingZeros (padLeadingPoint (dropZeroExponent (tidyExponent text))))

/-- The normal form of a number literal. -/
def normalize (text : String) : String := String.ofList (normalizeChars text.toList)

end LintTypes.NumberText
