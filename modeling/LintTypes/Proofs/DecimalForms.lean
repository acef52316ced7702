import LintTypes.Json.Basic
import LintTypes.Proofs.Tokens

/-!
# Texts of JSON numbers

The text that a JSON number has is a number literal, so it can stand in a type. Its parts are told
from the number (`JsonNumber.parts`): an integer has nothing but digits, a decimal near the point is
written out, and any other one has an exponent.
-/

namespace LintTypes.Source

/-! ## Digits -/

/-- A natural number is written with digits, and with one at least. -/
theorem digits_toString (n : Nat) :
    (toString n).toList ≠ [] ∧ ∀ c ∈ (toString n).toList, c.isDigit = true := by
  rw [Nat.toString_eq_ofList_toDigits, String.toList_ofList]
  exact ⟨Nat.toDigits_ne_nil, fun c hc => Nat.isDigit_of_mem_toDigits (by decide) (by decide) hc⟩

theorem digits_replicate (n : Nat) : ∀ c ∈ List.replicate n '0', c.isDigit = true := by
  intro c hc
  rw [List.eq_of_mem_replicate hc]
  decide

/-! ## Decimals -/

/-- The parts of the text of a decimal with the digits `digits`, the last of them under the power of
ten `exponent`. -/
def decimalParts (digits : List Char) (exponent : Int) : NumberParts :=
  let leading : Int := digits.length - 1 + exponent
  if -5 ≤ leading ∧ leading < 16 then
    if 0 ≤ exponent then ⟨false, digits ++ List.replicate exponent.toNat '0', ['0'], none⟩
    else if 0 ≤ leading then
      ⟨false, digits.take (leading + 1).toNat, digits.drop (leading + 1).toNat, none⟩
    else ⟨false, ['0'], List.replicate (-leading - 1).toNat '0' ++ digits, none⟩
  else
    ⟨false, digits.take 1, digits.drop 1,
      some ⟨'e', [if leading < 0 then '-' else '+'], (toString leading.natAbs).toList⟩⟩

section Decimals

variable {digits : List Char} (hne : digits ≠ []) (exponent : Int)

include hne

/-- The text of a decimal is that of its parts: zeros are filled in, or an exponent is written. -/
theorem text_decimalParts :
    (decimalParts digits exponent).text = Binary64.decimalText digits exponent := by
  have hpos : 0 < digits.length := List.length_pos_iff.2 hne
  unfold decimalParts Binary64.decimalText
  extract_lets leading fraction sign
  -- Digits near the point are written out, all others with an exponent.
  by_cases hplain : -5 ≤ leading ∧ leading < 16
  · simp only [if_pos hplain]
    by_cases hexponent : 0 ≤ exponent
    · simp [hexponent, NumberParts.text, NumberParts.signText, NumberParts.fractionText,
        NumberParts.exponentText]
    simp only [if_neg hexponent]
    by_cases hleading : 0 ≤ leading
    · have hrest : digits.drop (leading + 1).toNat ≠ [] := by
        rw [← List.length_pos_iff, List.length_drop]
        omega
      simp [hleading, hrest, NumberParts.text, NumberParts.signText, NumberParts.fractionText,
        NumberParts.exponentText]
    · simp [hleading, hne, NumberParts.text, NumberParts.signText, NumberParts.fractionText,
        NumberParts.exponentText]
  · simp only [if_neg hplain]
    have hfraction : (if digits.drop 1 = [] then [] else '.' :: digits.drop 1) = fraction := by
      cases hrest : digits.drop 1 with
      | nil => simp [fraction, hrest]
      | cons c rest => simp [fraction, hrest]
    simp [NumberParts.text, NumberParts.signText, NumberParts.fractionText,
      NumberParts.exponentText, ExponentParts.text, ← hfraction, sign]

/-- The parts of a decimal are those of a number. -/
theorem wellFormed_decimalParts (hd : ∀ c ∈ digits, c.isDigit = true) :
    (decimalParts digits exponent).WellFormed := by
  have hpos : 0 < digits.length := List.length_pos_iff.2 hne
  have htake : ∀ n, ∀ c ∈ digits.take n, c.isDigit = true :=
    fun n c hc => hd c (List.mem_of_mem_take hc)
  have hdrop : ∀ n, ∀ c ∈ digits.drop n, c.isDigit = true :=
    fun n c hc => hd c (List.mem_of_mem_drop hc)
  unfold decimalParts
  extract_lets leading
  by_cases hplain : -5 ≤ leading ∧ leading < 16
  · rw [if_pos hplain]
    by_cases hexponent : 0 ≤ exponent
    · rw [if_pos hexponent]
      refine ⟨by simp [hne], List.forall_mem_append.2 ⟨hd, digits_replicate _⟩, by simp, by simp⟩
    rw [if_neg hexponent]
    by_cases hleading : 0 ≤ leading
    · rw [if_pos hleading]
      refine ⟨?_, htake _, hdrop _, by simp⟩
      rw [← List.length_pos_iff, List.length_take]
      omega
    · rw [if_neg hleading]
      exact ⟨by simp, by simp, List.forall_mem_append.2 ⟨digits_replicate _, hd⟩, by simp⟩
  · rw [if_neg hplain]
    refine ⟨?_, htake 1, hdrop 1, ?_⟩
    · rw [← List.length_pos_iff, List.length_take]
      omega
    · rintro e ⟨⟩
      refine ⟨.inl rfl, ?_, (digits_toString _).1, (digits_toString _).2⟩
      by_cases hneg : leading < 0
      · exact .inr (.inr (by simp [hneg]))
      · exact .inr (.inl (by simp [hneg]))

end Decimals

theorem isNegative_decimalParts (digits : List Char) (exponent : Int) :
    (decimalParts digits exponent).isNegative = false := by
  unfold decimalParts
  dsimp only
  repeat' split
  all_goals rfl

/-! ## Signs -/

/-- A sign is put in front of the rest. -/
theorem NumberParts.text_withSign {p : NumberParts} (hp : p.isNegative = false) (negative : Bool) :
    { p with isNegative := negative }.text = if negative then '-' :: p.text else p.text := by
  cases negative <;> simp [text, signText, fractionText, exponentText, hp]

theorem NumberParts.WellFormed.withSign {p : NumberParts} (hp : p.WellFormed) (negative : Bool) :
    { p with isNegative := negative }.WellFormed :=
  ⟨hp.whole_ne, hp.whole, hp.fraction, hp.exponent⟩

end LintTypes.Source

namespace LintTypes

open Source

namespace JsonNumber

/-- The parts of the text of a number. -/
def parts : JsonNumber → NumberParts
  | integer n => ⟨n.value < 0, (toString n.value.natAbs).toList, [], none⟩
  | real x =>
    { (if x.significand = 0 then ⟨false, ['0'], ['0'], none⟩
      else decimalParts (toString x.shortest.digits).toList x.shortest.exponent) with
      isNegative := x.negative }

/-- Every JSON number has the parts of a number. -/
theorem wellFormed_parts (number : JsonNumber) : number.parts.WellFormed := by
  cases number with
  | integer n =>
    exact ⟨(digits_toString _).1, (digits_toString _).2, List.forall_mem_nil _, by rintro e ⟨⟩⟩
  | real x =>
    refine NumberParts.WellFormed.withSign ?_ x.negative
    split
    · exact ⟨by simp, by simp, by simp, by simp⟩
    · exact wellFormed_decimalParts (digits_toString _).1 _ (digits_toString _).2

/-- The parts of a number make up its text. -/
theorem text_parts (number : JsonNumber) : number.parts.text = number.text.toList := by
  cases number with
  | integer n =>
    obtain ⟨value, hleast, hgreatest⟩ := n
    cases value with
    | ofNat n =>
      show [] ++ (toString n).toList ++ [] ++ [] = (toString n).toList
      simp
    | negSucc n =>
      show (if decide (Int.negSucc n < 0) then ['-'] else []) ++ (toString (n + 1)).toList ++ [] ++
        [] = ("-" ++ toString (n + 1)).toList
      simp
  | real x =>
    rw [parts, text, String.toList_ofList, NumberParts.text_withSign]
    · unfold Binary64.text
      by_cases hzero : x.significand = 0
      · simp only [hzero, if_true]
        rfl
      · simp only [hzero, if_false, text_decimalParts (digits_toString _).1]
    · split
      · rfl
      · exact isNegative_decimalParts _ _

end JsonNumber

/-- The text of a number is a number literal. -/
theorem Source.isNumber_text (number : JsonNumber) : IsNumber number.text.toList :=
  ⟨number.parts, number.wellFormed_parts, number.text_parts⟩

end LintTypes
