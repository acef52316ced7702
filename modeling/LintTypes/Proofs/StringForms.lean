import LintTypes.Proofs.Tokens

/-!
# Strings as they are quoted

A string literal as it is laid out is a spelling of the string, whatever characters the string holds
and whichever quote is preferred.
-/

namespace LintTypes.StringLiteral

open LintTypes.Source (Quoted holds_of_toNat_lt)

theorem delimiter_eq (preferSingle : Bool) (text : List Char) :
    delimiter preferSingle text = '\'' ∨ delimiter preferSingle text = '"' := by
  unfold delimiter
  cases preferSingle
  · simp only [Bool.false_eq_true, if_false]
    split
    · exact Or.inl rfl
    · exact Or.inr rfl
  · simp only [if_true]
    split
    · exact Or.inr rfl
    · exact Or.inl rfl

/-- The escape of a control character stands for it. -/
theorem charOfHex?_control {c : Char} (hc : isControl c = true) :
    charOfHex? (hexDigit (c.toNat / 4096 % 16)) (hexDigit (c.toNat / 256 % 16))
      (hexDigit (c.toNat / 16 % 16)) (hexDigit (c.toNat % 16)) = some c := by
  have hlt : c.toNat < 160 := by
    simp only [isControl, Bool.or_eq_true, Bool.and_eq_true, decide_eq_true_eq] at hc
    omega
  exact holds_of_toNat_lt (P := fun c => isControl c = true →
      charOfHex? (hexDigit (c.toNat / 4096 % 16)) (hexDigit (c.toNat / 256 % 16))
        (hexDigit (c.toNat / 16 % 16)) (hexDigit (c.toNat % 16)) = some c)
    (by decide +kernel) hlt hc

theorem unescape?_fourHexDigits {c : Char} (hc : isControl c = true) (rest : List Char) :
    unescape? ('u' :: fourHexDigits c.toNat ++ rest) = some (c, rest) := by
  simp [fourHexDigits, unescape?, charOfHex?_control hc]

/-- A character is written as itself or as an escape that stands for it. -/
theorem escapeChar_cases {quote : Char} (hq : quote = '\'' ∨ quote = '"') (c : Char) :
    (escapeChar quote c = [c] ∧ c ≠ quote ∧ c ≠ '\\') ∨
    (∃ escape, escapeChar quote c = '\\' :: escape ∧
      ∀ rest, unescape? (escape ++ rest) = some (c, rest)) := by
  unfold escapeChar
  split
  · exact Or.inr ⟨_, rfl, fun _ => rfl⟩
  · exact Or.inr ⟨_, rfl, fun _ => rfl⟩
  · exact Or.inr ⟨_, rfl, fun _ => rfl⟩
  · exact Or.inr ⟨_, rfl, fun _ => rfl⟩
  · exact Or.inr ⟨_, rfl, fun _ => rfl⟩
  · exact Or.inr ⟨_, rfl, fun _ => rfl⟩
  · rename_i hbackslash _ _ _ _ _
    by_cases hquote : c = quote
    · refine Or.inr ⟨[c], if_pos hquote, fun rest => ?_⟩
      rcases hq with rfl | rfl <;> rw [hquote] <;> rfl
    · rw [if_neg hquote]
      by_cases hcontrol : isControl c = true
      · exact Or.inr ⟨_, if_pos hcontrol, unescape?_fourHexDigits hcontrol⟩
      · exact Or.inl ⟨if_neg hcontrol, hquote, hbackslash⟩

/-- What stands between the quotes stands for the text. -/
theorem quoted_flatMap_escapeChar {quote : Char} (hq : quote = '\'' ∨ quote = '"')
    (text : List Char) : Quoted quote (text.flatMap (escapeChar quote)) text := by
  induction text with
  | nil => exact .nil
  | cons c text ih =>
    rw [List.flatMap_cons]
    rcases escapeChar_cases hq c with ⟨h, hne, hs⟩ | ⟨escape, h, he⟩
    · rw [h]
      exact .plain hne hs ih
    · rw [h]
      exact .escaped he ih

theorem lexeme_quoted (preferSingle : Bool) (text : String) :
    Source.Lexeme (.string text) (quoted preferSingle text).toList := by
  have hq := delimiter_eq preferSingle text.toList
  rw [quoted, String.toList_ofList, encode]
  exact .string hq (quoted_flatMap_escapeChar hq text.toList)

end LintTypes.StringLiteral
