import LintTypes.Proofs.Tokens
import LintTypes.Types.NumberText

/-!
# Numbers in normal form

The normal form of a number literal is a number literal again. Each step of `NumberText.normalize`
changes one of the parts of a literal and leaves the others alone.
-/

namespace LintTypes.Source

open NumberText

/-! ## Characters of numbers -/

/-- Digits are their own lower case, and digits of the decimal scripts. -/
theorem digit_facts {c : Char} (h : c.isDigit = true) :
    Casing.lower c = [c] ∧ DecimalDigit.isDigit c = true ∧ c ≠ 'Σ' ∧ c ≠ '.' ∧ c ≠ 'e' ∧ c ≠ '+' ∧
      c ≠ '-' :=
  holds_of_isDigit (P := fun c => Casing.lower c = [c] ∧ DecimalDigit.isDigit c = true ∧
      c ≠ 'Σ' ∧ c ≠ '.' ∧ c ≠ 'e' ∧ c ≠ '+' ∧ c ≠ '-')
    (by decide +kernel) h

/-- Signs and points are their own lower case, and both marks of an exponent have the same. -/
theorem lower_marks : Casing.lower '.' = ['.'] ∧ Casing.lower '+' = ['+'] ∧
    Casing.lower '-' = ['-'] ∧ Casing.lower 'e' = ['e'] ∧ Casing.lower 'E' = ['e'] ∧
    DecimalDigit.isDigit 'e' = false := by
  decide +kernel

/-- A text of characters other than sigma is put into lower case character by character. -/
theorem lowerText_go (text before : List Char) (h : ∀ c ∈ text, c ≠ 'Σ') :
    Casing.lowerText.go before text = text.flatMap Casing.lower := by
  induction text generalizing before with
  | nil => rfl
  | cons c text ih =>
    have hc : c ≠ 'Σ' := h c (List.mem_cons_self ..)
    rw [Casing.lowerText.go, Casing.lowerBetween, if_neg hc,
      ih _ fun d hd => h d (List.mem_cons_of_mem _ hd), List.flatMap_cons]

theorem flatMap_lower {text : List Char} (h : ∀ c ∈ text, Casing.lower c = [c]) :
    text.flatMap Casing.lower = text := by
  induction text with
  | nil => rfl
  | cons c text ih =>
    rw [List.flatMap_cons, h c (List.mem_cons_self ..),
      ih fun d hd => h d (List.mem_cons_of_mem _ hd), List.singleton_append]

/-! ## Steps on texts -/

theorem dropTrailingZeros_append {front : List Char} (h : ∀ c ∈ front, c ≠ '.')
    (rest : List Char) : dropTrailingZeros (front ++ rest) = front ++ dropTrailingZeros rest := by
  induction front with
  | nil => rfl
  | cons c front ih =>
    have hc : c ≠ '.' := h c (List.mem_cons_self ..)
    rw [List.cons_append, dropTrailingZeros]
    simp only [hc, false_and, if_false, List.cons_append]
    rw [ih fun d hd => h d (List.mem_cons_of_mem _ hd)]

theorem dropTrailingZeros_of_no_point {text : List Char} (h : ∀ c ∈ text, c ≠ '.') :
    dropTrailingZeros text = text := by
  have := dropTrailingZeros_append h []
  simpa [dropTrailingZeros] using this

theorem dropTrailingPoint_append {front : List Char} (h : ∀ c ∈ front, c ≠ '.')
    (rest : List Char) : dropTrailingPoint (front ++ rest) = front ++ dropTrailingPoint rest := by
  induction front with
  | nil => rfl
  | cons c front ih =>
    have hc : c ≠ '.' := h c (List.mem_cons_self ..)
    rw [List.cons_append, dropTrailingPoint]
    simp only [hc, false_and, if_false, List.cons_append]
    rw [ih fun d hd => h d (List.mem_cons_of_mem _ hd)]

theorem dropTrailingPoint_of_no_point {text : List Char} (h : ∀ c ∈ text, c ≠ '.') :
    dropTrailingPoint text = text := by
  have := dropTrailingPoint_append h []
  simpa [dropTrailingPoint] using this

/-- Trimming takes zeros off the end. -/
theorem trimFraction_initial (digits : List Char) : trimFraction digits <+: digits := by
  cases digits with
  | nil => exact List.prefix_rfl
  | cons d digits =>
    have hsuffix : digits.reverse.dropWhile (· == '0') <:+ digits.reverse :=
      List.dropWhile_suffix _
    have hprefix := List.reverse_prefix.2 hsuffix
    rw [List.reverse_reverse] at hprefix
    exact List.cons_prefix_cons.2 ⟨rfl, hprefix⟩

/-- The zeros at the end of a fraction are dropped. -/
theorem dropTrailingZeros_point {digits after : List Char}
    (hd : ∀ c ∈ digits, DecimalDigit.isDigit c = true) (hp : ∀ c ∈ digits ++ after, c ≠ '.')
    (hends : fractionEnds after = true)
    (hhead : ∀ c ∈ after.head?, DecimalDigit.isDigit c = false) :
    dropTrailingZeros ('.' :: (digits ++ after)) = '.' :: (trimFraction digits ++ after) := by
  have htake : (digits ++ after).takeWhile DecimalDigit.isDigit = digits := by
    rw [List.takeWhile_append_of_pos hd]
    cases after with
    | nil => simp
    | cons c rest => simp [hhead c rfl]
  have hdrop : (digits ++ after).dropWhile DecimalDigit.isDigit = after := by
    rw [List.dropWhile_append_of_pos hd]
    cases after with
    | nil => simp
    | cons c rest => simp [hhead c rfl]
  rw [dropTrailingZeros]
  simp only [htake, hdrop, hends, true_and]
  split
  · rfl
  · rename_i hlt
    -- Nothing is left to trim.
    have hsame : trimFraction digits = digits :=
      (trimFraction_initial digits).eq_of_length_le (Nat.le_of_not_lt hlt)
    rw [hsame, dropTrailingZeros_of_no_point hp]

theorem dropLeadingZeros_digits {digits : List Char} (hne : digits ≠ [])
    (h : ∀ c ∈ digits, c.isDigit = true) :
    ∃ trimmed, dropLeadingZeros digits = some trimmed ∧ trimmed ≠ [] ∧
      (∀ c ∈ trimmed, c.isDigit = true) := by
  induction digits with
  | nil => exact absurd rfl hne
  | cons d digits ih =>
    have hd : d.isDigit = true := h d (List.mem_cons_self ..)
    by_cases hzero : d = '0'
    · subst hzero
      rw [dropLeadingZeros]
      by_cases hrest : digits = []
      · subst hrest
        exact ⟨_, rfl, by simp [dropLeadingZeros], by simp [dropLeadingZeros, hd]⟩
      · obtain ⟨trimmed, htrim, htne, hdigits⟩ :=
          ih hrest fun c hc => h c (List.mem_cons_of_mem _ hc)
        exact ⟨trimmed, by rw [htrim]; rfl, htne, hdigits⟩
    · refine ⟨d :: digits, ?_, by simp, h⟩
      unfold dropLeadingZeros
      split
      · rename_i heq
        exact absurd (List.cons.inj heq).1 hzero
      · rename_i heq
        cases heq
        rw [if_pos (digit_facts hd).2.1]
      · rename_i heq
        cases heq

/-! ## Steps on the parts of a number -/

namespace ExponentParts

/-- The exponent in lower case. -/
def lower (e : ExponentParts) : ExponentParts := { e with mark := 'e' }

/-- The exponent without `+` and without leading zeros. -/
def tidy (e : ExponentParts) : ExponentParts :=
  ⟨'e', e.sign.filter (· == '-'), (dropLeadingZeros e.digits).getD e.digits⟩

/-- Whether the exponent is zero. -/
def isZero (e : ExponentParts) : Bool := e.digits.all (· == '0')

theorem WellFormed.lower {e : ExponentParts} (h : e.WellFormed) : e.lower.WellFormed :=
  ⟨Or.inl rfl, h.sign, h.digits_ne, h.digits⟩

theorem WellFormed.tidy {e : ExponentParts} (h : e.WellFormed) : e.tidy.WellFormed := by
  obtain ⟨trimmed, htrim, htne, hdigits⟩ := dropLeadingZeros_digits h.digits_ne h.digits
  refine ⟨Or.inl rfl, ?_, ?_, ?_⟩
  · rcases h.sign with hs | hs | hs <;> simp [ExponentParts.tidy, hs]
  · simpa [ExponentParts.tidy, htrim] using htne
  · simpa [ExponentParts.tidy, htrim] using hdigits

theorem splitSign_sign {e : ExponentParts} (h : e.WellFormed) :
    splitSign (e.sign ++ e.digits) = (e.sign, e.digits) := by
  obtain ⟨d, ds, hd⟩ := List.exists_cons_of_ne_nil h.digits_ne
  obtain ⟨-, -, -, -, -, hplus, hminus⟩ := digit_facts (h.digits d (by simp [hd]))
  rcases h.sign with hs | hs | hs
  · simp only [hs, hd, List.nil_append]
    unfold splitSign
    split
    · rename_i heq
      exact absurd (List.cons.inj heq).1 hplus
    · rename_i heq
      exact absurd (List.cons.inj heq).1 hminus
    · rfl
  · rw [hs]; rfl
  · rw [hs]; rfl

end ExponentParts

namespace NumberParts

/-- The exponent, if there is one, begins with a lower-case mark. -/
def LowerMark (p : NumberParts) : Prop := ∀ e ∈ p.exponent, e.mark = 'e'

/-- The number in lower case. -/
def lower (p : NumberParts) : NumberParts :=
  { p with exponent := p.exponent.map ExponentParts.lower }

/-- The number with a tidy exponent. -/
def tidy (p : NumberParts) : NumberParts := { p with exponent := p.exponent.map ExponentParts.tidy }

/-- The number without a zero exponent. -/
def dropZeroExponent (p : NumberParts) : NumberParts :=
  { p with exponent := p.exponent.filter fun e => !e.isZero }

/-- The number without trailing zeros in its fraction, but for the first digit. -/
def trim (p : NumberParts) : NumberParts := { p with fraction := trimFraction p.fraction }

/-- The parts of the normal form. -/
def normal (p : NumberParts) : NumberParts := p.tidy.dropZeroExponent.trim

variable {p : NumberParts}

theorem WellFormed.lower (h : p.WellFormed) : p.lower.WellFormed := by
  refine ⟨h.whole_ne, h.whole, h.fraction, fun e he => ?_⟩
  obtain ⟨e', he', rfl⟩ := Option.map_eq_some_iff.1 he
  exact (h.exponent e' he').lower

theorem WellFormed.tidy (h : p.WellFormed) : p.tidy.WellFormed := by
  refine ⟨h.whole_ne, h.whole, h.fraction, fun e he => ?_⟩
  obtain ⟨e', he', rfl⟩ := Option.map_eq_some_iff.1 he
  exact (h.exponent e' he').tidy

theorem WellFormed.dropZeroExponent (h : p.WellFormed) : p.dropZeroExponent.WellFormed :=
  ⟨h.whole_ne, h.whole, h.fraction, fun e he => h.exponent e (Option.eq_some_of_filter_eq_some he)⟩

theorem WellFormed.trim (h : p.WellFormed) : p.trim.WellFormed :=
  ⟨h.whole_ne, h.whole, fun c hc => h.fraction c ((trimFraction_initial p.fraction).subset hc),
    h.exponent⟩

theorem WellFormed.normal (h : p.WellFormed) : p.normal.WellFormed :=
  h.tidy.dropZeroExponent.trim

theorem lowerMark_lower : p.lower.LowerMark := by
  intro e he
  obtain ⟨e', -, rfl⟩ := Option.map_eq_some_iff.1 he
  rfl

theorem lowerMark_tidy : p.tidy.LowerMark := by
  intro e he
  obtain ⟨e', -, rfl⟩ := Option.map_eq_some_iff.1 he
  rfl

theorem sign_ne_point : ∀ c ∈ p.signText, c ≠ 'Σ' ∧ c ≠ '.' ∧ Casing.lower c = [c] := by
  unfold signText
  cases p.isNegative
  · simp
  · intro c hc
    rw [List.mem_singleton.1 hc]
    exact ⟨by decide, by decide, lower_marks.2.2.1⟩

theorem fractionText_ne (h : p.WellFormed) : ∀ c ∈ p.fractionText,
    c ≠ 'Σ' ∧ Casing.lower c = [c] ∧ isMantissaChar c = true := by
  unfold fractionText
  split
  · simp
  · intro c hc
    rcases List.mem_cons.1 hc with rfl | hc
    · exact ⟨by decide, lower_marks.1, by simp [isMantissaChar]⟩
    · obtain ⟨hlow, hdigit, hsigma, -⟩ := digit_facts (h.fraction c hc)
      exact ⟨hsigma, hlow, by simp [isMantissaChar, hdigit]⟩

/-- The characters of an exponent, but for its mark, are their own lower case. -/
theorem exponent_ne {e : ExponentParts} (h : e.WellFormed) : ∀ c ∈ e.sign ++ e.digits,
    c ≠ 'Σ' ∧ c ≠ '.' ∧ Casing.lower c = [c] := by
  intro c hc
  rcases List.mem_append.1 hc with hc | hc
  · rcases h.sign with hs | hs | hs
    · simp [hs] at hc
    · rw [hs] at hc
      rw [List.mem_singleton.1 hc]
      exact ⟨by decide, by decide, lower_marks.2.1⟩
    · rw [hs] at hc
      rw [List.mem_singleton.1 hc]
      exact ⟨by decide, by decide, lower_marks.2.2.1⟩
  · obtain ⟨hlow, -, hsigma, hpoint, -⟩ := digit_facts (h.digits c hc)
    exact ⟨hsigma, hpoint, hlow⟩

theorem exponentText_ne (h : p.WellFormed) : ∀ c ∈ p.exponentText, c ≠ 'Σ' ∧ c ≠ '.' := by
  unfold exponentText
  cases he : p.exponent with
  | none => simp
  | some e =>
    intro c hc
    rcases List.mem_cons.1 hc with rfl | hc
    · rcases (h.exponent e he).mark with hm | hm <;> rw [hm] <;> decide
    · exact ⟨(exponent_ne (h.exponent e he) c hc).1, (exponent_ne (h.exponent e he) c hc).2.1⟩

theorem lowerText_text (h : p.WellFormed) : Casing.lowerText p.text = p.lower.text := by
  have hsigma : ∀ c ∈ p.text, c ≠ 'Σ' := by
    intro c hc
    simp only [text, List.mem_append] at hc
    rcases hc with ((hc | hc) | hc) | hc
    · exact (sign_ne_point c hc).1
    · exact (digit_facts (h.whole c hc)).2.2.1
    · exact (fractionText_ne h c hc).1
    · exact (exponentText_ne h c hc).1
  have hexponent : p.exponentText.flatMap Casing.lower = p.lower.exponentText := by
    unfold exponentText NumberParts.lower
    cases he : p.exponent with
    | none => rfl
    | some e =>
      have hmark : Casing.lower e.mark = ['e'] := by
        rcases (h.exponent e he).mark with hm | hm <;> simp only [hm, lower_marks]
      have hrest := flatMap_lower fun c hc => (exponent_ne (h.exponent e he) c hc).2.2
      show (e.mark :: (e.sign ++ e.digits)).flatMap Casing.lower = _
      rw [List.flatMap_cons, hmark, hrest]
      rfl
  rw [Casing.lowerText, lowerText_go _ _ hsigma]
  simp only [text, List.flatMap_append, hexponent]
  rw [flatMap_lower fun c hc => (sign_ne_point c hc).2.2,
    flatMap_lower fun c hc => (digit_facts (h.whole c hc)).1,
    flatMap_lower fun c hc => (fractionText_ne h c hc).2.1]
  rfl

/-- Behind the sign stands a digit. -/
theorem splitSign_signText (h : p.WellFormed) (rest : List Char) :
    splitSign (p.signText ++ (p.whole ++ rest)) = (p.signText, p.whole ++ rest) := by
  obtain ⟨d, ds, hd⟩ := List.exists_cons_of_ne_nil h.whole_ne
  obtain ⟨-, -, -, -, -, hplus, hminus⟩ := digit_facts (h.whole d (by simp [hd]))
  unfold signText
  cases p.isNegative
  · simp only [Bool.false_eq_true, if_false, List.nil_append, hd, List.cons_append]
    unfold splitSign
    split
    · rename_i heq
      exact absurd (List.cons.inj heq).1 hplus
    · rename_i heq
      exact absurd (List.cons.inj heq).1 hminus
    · rfl
  · rfl

/-- A number is split at its exponent. -/
theorem splitExponent?_text (h : p.WellFormed) (hm : p.LowerMark) :
    splitExponent? p.text = p.exponent.map fun e =>
      (p.signText ++ p.whole ++ p.fractionText, e.sign ++ e.digits) := by
  have hsign := splitSign_signText h (p.fractionText ++ p.exponentText)
  have hmantissa : ∀ c ∈ p.whole ++ p.fractionText, isMantissaChar c = true := by
    intro c hc
    rcases List.mem_append.1 hc with hc | hc
    · simp [isMantissaChar, (digit_facts (h.whole c hc)).2.1]
    · exact (fractionText_ne h c hc).2.2
  obtain ⟨d, ds, hd⟩ := List.exists_cons_of_ne_nil h.whole_ne
  have htext : p.text = p.signText ++ (p.whole ++ (p.fractionText ++ p.exponentText)) := by
    simp only [text, List.append_assoc]
  unfold splitExponent?
  rw [htext, hsign]
  simp only
  rw [← List.append_assoc, List.takeWhile_append_of_pos hmantissa,
    List.dropWhile_append_of_pos hmantissa]
  unfold exponentText
  cases he : p.exponent with
  | none => simp [hd]
  | some e =>
    have hmark : isMantissaChar 'e' = false := by simp [isMantissaChar, lower_marks]
    simp [ExponentParts.text, hm e he, hmark, hd]

theorem tidyExponent_text (h : p.WellFormed) (hm : p.LowerMark) :
    tidyExponent p.text = p.tidy.text := by
  unfold tidyExponent
  rw [splitExponent?_text h hm]
  cases he : p.exponent with
  | none => simp [text, tidy, signText, fractionText, exponentText, he]
  | some e =>
    have hwf := h.exponent e he
    obtain ⟨trimmed, htrim, -⟩ := dropLeadingZeros_digits hwf.digits_ne hwf.digits
    simp [ExponentParts.splitSign_sign hwf, htrim, text, tidy, signText, fractionText,
      exponentText, he, ExponentParts.text, ExponentParts.tidy]

theorem dropZeroExponent_text (h : p.WellFormed) (hm : p.LowerMark) :
    NumberText.dropZeroExponent p.text = p.dropZeroExponent.text := by
  unfold NumberText.dropZeroExponent
  rw [splitExponent?_text h hm]
  cases he : p.exponent with
  | none => simp [text, dropZeroExponent, signText, fractionText, exponentText, he]
  | some e =>
    have hwf := h.exponent e he
    have hzero : (e.digits ≠ [] ∧ e.digits.all (· == '0') = true) ↔ e.isZero = true :=
      and_iff_right hwf.digits_ne
    simp only [Option.map_some, ExponentParts.splitSign_sign hwf, hzero]
    by_cases hz : e.isZero = true
    · simp [hz, text, dropZeroExponent, signText, fractionText, exponentText, he, Option.filter]
    · simp [hz, text, dropZeroExponent, signText, fractionText, exponentText, he, Option.filter]

/-- A number has a digit before its point. -/
theorem padLeadingPoint_text (h : p.WellFormed) : padLeadingPoint p.text = p.text := by
  have hsign := splitSign_signText h (p.fractionText ++ p.exponentText)
  obtain ⟨d, ds, hd⟩ := List.exists_cons_of_ne_nil h.whole_ne
  obtain ⟨-, -, -, hpoint, -⟩ := digit_facts (h.whole d (by simp [hd]))
  have htext : p.text = p.signText ++ (p.whole ++ (p.fractionText ++ p.exponentText)) := by
    simp only [text, List.append_assoc]
  unfold padLeadingPoint
  rw [htext, hsign, hd]
  split
  · rename_i heq
    exact absurd (List.cons.inj (Prod.mk.inj heq).2).1 hpoint
  · rfl

/-- The characters in front of the fraction of a number. -/
theorem whole_ne_point (h : p.WellFormed) : ∀ c ∈ p.signText ++ p.whole, c ≠ '.' := by
  intro c hc
  rcases List.mem_append.1 hc with hc | hc
  · exact (sign_ne_point c hc).2.1
  · exact (digit_facts (h.whole c hc)).2.2.2.1

/-- Behind the fraction of a number comes its exponent or the end. -/
theorem fractionEnds_exponentText (hm : p.LowerMark) :
    fractionEnds p.exponentText = true ∧
      ∀ c ∈ p.exponentText.head?, DecimalDigit.isDigit c = false := by
  unfold exponentText
  cases he : p.exponent with
  | none => exact ⟨rfl, by simp⟩
  | some e =>
    simp only [Option.map_some, Option.getD_some, ExponentParts.text, hm e he]
    refine ⟨rfl, ?_⟩
    rintro c ⟨⟩
    exact lower_marks.2.2.2.2.2

theorem dropTrailingZeros_text (h : p.WellFormed) (hm : p.LowerMark) :
    dropTrailingZeros p.text = p.trim.text := by
  have hfraction : dropTrailingZeros (p.fractionText ++ p.exponentText)
      = p.trim.fractionText ++ p.exponentText := by
    obtain ⟨hends, hhead⟩ := fractionEnds_exponentText hm
    have hexponent : ∀ c ∈ p.exponentText, c ≠ '.' := fun c hc => (exponentText_ne h c hc).2
    unfold fractionText NumberParts.trim
    cases hf : p.fraction with
    | nil => simpa [trimFraction] using dropTrailingZeros_of_no_point hexponent
    | cons d ds =>
      have hdigit : ∀ c ∈ d :: ds, c.isDigit = true := hf ▸ h.fraction
      refine dropTrailingZeros_point (fun c hc => (digit_facts (hdigit c hc)).2.1) ?_ hends hhead
      intro c hc
      rcases List.mem_append.1 hc with hc | hc
      · exact (digit_facts (hdigit c hc)).2.2.2.1
      · exact hexponent c hc
  rw [text, List.append_assoc, dropTrailingZeros_append (whole_ne_point h), hfraction,
    ← List.append_assoc]
  rfl

/-- A number has a digit behind its point. -/
theorem dropTrailingPoint_text (h : p.WellFormed) : dropTrailingPoint p.text = p.text := by
  have hexponent : ∀ c ∈ p.exponentText, c ≠ '.' := fun c hc => (exponentText_ne h c hc).2
  have hfraction : dropTrailingPoint (p.fractionText ++ p.exponentText)
      = p.fractionText ++ p.exponentText := by
    unfold fractionText
    cases hf : p.fraction with
    | nil => simpa using dropTrailingPoint_of_no_point hexponent
    | cons d ds =>
      have hdigit : ∀ c ∈ d :: ds, c.isDigit = true := hf ▸ h.fraction
      have hmark : d ≠ 'e' := (digit_facts (hdigit d (by simp))).2.2.2.2.1
      have hpoints : ∀ c ∈ d :: ds ++ p.exponentText, c ≠ '.' := by
        intro c hc
        rcases List.mem_append.1 hc with hc | hc
        · exact (digit_facts (hdigit c hc)).2.2.2.1
        · exact hexponent c hc
      have hrest := dropTrailingPoint_of_no_point hpoints
      rw [if_neg (List.cons_ne_nil d ds), List.cons_append, dropTrailingPoint, hrest]
      simp [fractionEnds, hmark]
  rw [text, List.append_assoc, dropTrailingPoint_append (whole_ne_point h), hfraction]

/-- The normal form of a number is that of its parts. -/
theorem normalizeChars_text (h : p.WellFormed) : normalizeChars p.text = p.lower.normal.text := by
  have hlower := lowerText_text h
  have htidy := tidyExponent_text h.lower lowerMark_lower
  have hzero := dropZeroExponent_text h.lower.tidy lowerMark_tidy
  have hmark : p.lower.tidy.dropZeroExponent.LowerMark :=
    fun e he => lowerMark_tidy e (Option.eq_some_of_filter_eq_some he)
  have hpad := padLeadingPoint_text h.lower.tidy.dropZeroExponent
  have htrim := dropTrailingZeros_text h.lower.tidy.dropZeroExponent hmark
  have hpoint := dropTrailingPoint_text h.lower.normal
  unfold normalizeChars
  simp only [hlower, htidy, hzero, hpad, htrim]
  exact hpoint

end NumberParts

/-- The normal form of a number is a number. -/
theorem IsNumber.normalize {text : String} (h : IsNumber text.toList) :
    IsNumber (normalize text).toList := by
  obtain ⟨p, hp, htext⟩ := h
  refine ⟨p.lower.normal, hp.lower.normal, ?_⟩
  rw [NumberText.normalize, String.toList_ofList, ← htext, NumberParts.normalizeChars_text hp]

end LintTypes.Source
