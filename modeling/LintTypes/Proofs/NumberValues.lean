import LintTypes.Proofs.LongerTokens
import LintTypes.Proofs.NumberForms
import LintTypes.Proofs.ParsedForms
import Mathlib.Algebra.Field.Rat
import Mathlib.Data.List.DropRight
import Mathlib.Tactic.Ring

/-!
# Values of number literals

The number that a number literal stands for, as an exact ratio: its digits without the point, scaled
by the power of ten that the exponent and the length of the fraction give.

`NumberParts.ofText` reads the parts of a literal back from its text, so that a text has one value.
The normal form of a literal has the same value and the same sign, and is its own normal form.
-/

namespace LintTypes.Source

open NumberText

/-! ## Parts of a text -/

namespace ExponentParts

/-- The parts of an exponent, given its mark and what stands behind it. -/
def ofText (mark : Char) (text : List Char) : ExponentParts :=
  let (sign, digits) := splitSign text
  ⟨mark, sign, digits⟩

theorem ofText_eq {e : ExponentParts} (h : e.WellFormed) :
    ofText e.mark (e.sign ++ e.digits) = e := by
  rw [ofText, splitSign_sign h]

end ExponentParts

namespace NumberParts

/-- The parts of a text that is a number literal. -/
def ofText (text : List Char) : NumberParts :=
  let (sign, unsigned) := splitMinus text
  let (whole, rest) := splitDigits unsigned
  let (fraction, rest) := splitFraction rest
  { isNegative := !sign.isEmpty
    whole
    fraction := fraction.tail
    exponent := match splitExponent rest with
      | ([], _) => none
      | (mark :: rest, _) => some (.ofText mark rest) }

variable {p : NumberParts}

theorem text_eq (p : NumberParts) :
    p.text = p.signText ++ (p.whole ++ (p.fractionText ++ p.exponentText)) := by
  simp only [text, List.append_assoc]

/-- Each part of a number is split off where it ends. -/
theorem splits_text (h : p.WellFormed) :
    splitMinus p.text = (p.signText, p.whole ++ (p.fractionText ++ p.exponentText)) ∧
      splitDigits (p.whole ++ (p.fractionText ++ p.exponentText)) =
        (p.whole, p.fractionText ++ p.exponentText) ∧
      splitFraction (p.fractionText ++ p.exponentText) = (p.fractionText, p.exponentText) ∧
      splitExponent p.exponentText = (p.exponentText, []) := by
  have hhead : ∀ c ∈ p.exponentText.head?, c.isDigit = false ∧ c ≠ '.' := by
    simpa using @WellFormed.exponentText_head p h [] (by simp)
  refine ⟨?sign, splitDigits_append h.whole ?point, p.splitFraction_append h hhead, ?exponent⟩
  case sign =>
    obtain ⟨d, ds, hd⟩ := List.exists_cons_of_ne_nil h.whole_ne
    have hdigit : d.isDigit = true := h.whole d (by simp [hd])
    rw [text_eq]
    unfold signText
    cases p.isNegative
    · rw [hd]
      exact splitMinus_none (digit_facts hdigit).2.2.2.2.2.2 _
    · rfl
  case point =>
    unfold fractionText
    split
    · exact fun c hc => (hhead c hc).1
    · rintro c ⟨⟩
      decide
  case exponent =>
    have hnone : ∀ e : ExponentParts, e.WellFormed → e.text <+: [] → 'e' ∈ p.text ∨ 'E' ∈ p.text :=
      fun _ _ hprefix => absurd (List.prefix_nil.1 hprefix) (List.cons_ne_nil _ _)
    simpa using @splitExponent_append p h [] (by simp) hnone

/-- The parts of a number are read back from its text. -/
theorem ofText_text (h : p.WellFormed) : ofText p.text = p := by
  obtain ⟨hsign, hwhole, hfraction, hexponent⟩ := splits_text h
  have hnegative : (!p.signText.isEmpty) = p.isNegative := by
    unfold signText
    cases p.isNegative <;> rfl
  have htail : p.fractionText.tail = p.fraction := by
    unfold fractionText
    split
    · rename_i hnil
      rw [hnil, List.tail_nil]
    · rfl
  simp only [ofText, hsign, hwhole, hfraction, hexponent, hnegative, htail]
  cases he : p.exponent with
  | none =>
    simp only [exponentText, he, Option.map_none, Option.getD_none]
    rw [← he]
  | some e =>
    simp only [exponentText, he, Option.map_some, Option.getD_some, ExponentParts.text,
      ExponentParts.ofText_eq (h.exponent e he)]
    rw [← he]

end NumberParts

/-- A text is a number literal if and only if it is read as one up to its end. -/
theorem isNumber_iff_read {text : String} :
    IsNumber text.toList ↔ Parser.numberLiteral.run text.toList = .done text [] := by
  refine ⟨fun h => ?_, fun h => Parser.gives_numberLiteral _ _ _ _ h⟩
  obtain ⟨c, rest, hhead, hc⟩ := h.head
  have hskip : skipBlanks text.toList = text.toList := by
    rw [hhead]
    rcases hc with rfl | hdigit
    · exact skipBlanks_of_head (by decide) (by decide)
    · have hblank := not_blank_of_isNameChar (isNameChar_of_isDigit hdigit)
      exact skipBlanks_of_head hblank.1 hblank.2
  obtain ⟨p, hp, htext⟩ := h
  obtain ⟨hsign, hwhole, hfraction, hexponent⟩ := NumberParts.splits_text hp
  show unsignedNumber (splitMinus (skipBlanks text.toList)).1
    (splitMinus (skipBlanks text.toList)).2 = _
  rw [hskip, ← htext, hsign, unsignedNumber_done hwhole hp.whole_ne, hfraction, hexponent,
    List.append_assoc, ← p.text_eq, htext, String.ofList_toList]

/-! ## Values -/

/-- The exponent as a number. -/
def ExponentParts.value (e : ExponentParts) : Int :=
  (if e.sign = ['-'] then -1 else 1) * (Nat.ofDigitChars 10 e.digits 0 : Nat)

/-- The power of ten that the number is scaled by. -/
def NumberParts.power (p : NumberParts) : Int := (p.exponent.map ExponentParts.value).getD 0

/-- The number itself. -/
def NumberParts.value (p : NumberParts) : ℚ :=
  (if p.isNegative then -1 else 1) * (Nat.ofDigitChars 10 (p.whole ++ p.fraction) 0 : Nat) *
    (10 : ℚ) ^ (p.power - p.fraction.length)

end LintTypes.Source

/-- The number that a number literal stands for. -/
def LintTypes.NumberText.value (text : String) : ℚ :=
  (Source.NumberParts.ofText text.toList).value

namespace LintTypes.Source

open NumberText

/-! ## Digits -/

/-- Leading zeros count nothing, and only a lone zero is left of them. -/
theorem dropLeadingZeros_spec {digits trimmed : List Char} (h : ∀ c ∈ digits, c.isDigit = true)
    (ht : dropLeadingZeros digits = some trimmed) :
    Nat.ofDigitChars 10 trimmed 0 = Nat.ofDigitChars 10 digits 0 ∧
      (trimmed.head? ≠ some '0' ∨ trimmed = ['0']) := by
  induction digits using dropLeadingZeros.induct generalizing trimmed with
  | case1 rest ih =>
    obtain ⟨-, hrest⟩ := List.forall_mem_cons.1 h
    have hzero : Nat.ofDigitChars 10 ('0' :: rest) 0 = Nat.ofDigitChars 10 rest 0 :=
      Nat.ofDigitChars_cons
    rw [dropLeadingZeros, Option.some.injEq] at ht
    by_cases hnil : rest = []
    · subst hnil
      subst ht
      exact ⟨rfl, .inr rfl⟩
    · obtain ⟨others, hothers, -⟩ := dropLeadingZeros_digits hnil hrest
      rw [hothers, Option.getD_some] at ht
      subst ht
      rw [hzero]
      exact ih hrest hothers
  | case2 d rest hd hdigit =>
    rw [dropLeadingZeros.eq_2 _ _ hd, if_pos hdigit] at ht
    cases ht
    exact ⟨rfl, .inl fun heq => hd (Option.some.inj heq)⟩
  | case3 d rest hd hdigit =>
    rw [dropLeadingZeros.eq_2 _ _ hd, if_neg hdigit] at ht
    cases ht
  | case4 => cases ht

/-- What has no leading zero stays as it is. -/
theorem dropLeadingZeros_of_head {digits : List Char} (hne : digits ≠ [])
    (h : ∀ c ∈ digits, c.isDigit = true) (hhead : digits.head? ≠ some '0') :
    dropLeadingZeros digits = some digits := by
  obtain ⟨d, rest, rfl⟩ := List.exists_cons_of_ne_nil hne
  have hd : d ≠ '0' := fun heq => hhead (by rw [heq]; rfl)
  rw [dropLeadingZeros.eq_2 _ _ fun heq => hd heq,
    if_pos (digit_facts (h d (List.mem_cons_self ..))).2.1]

theorem ofDigitChars_eq_zero {digits : List Char} (h : digits.all (· == '0') = true) :
    Nat.ofDigitChars 10 digits 0 = 0 := by
  have hzeros : digits = List.replicate digits.length '0' :=
    List.eq_replicate_of_mem fun c hc => by simpa using List.all_eq_true.1 h c hc
  rw [hzeros, Nat.ofDigitChars_replicate_zero, Nat.mul_zero]

/-- A digit other than zero counts. -/
theorem ofDigitChars_ne_zero {d : Char} (h : d.isDigit = true) (hd : d ≠ '0') (digits : List Char) :
    Nat.ofDigitChars 10 (d :: digits) 0 ≠ 0 := by
  have hpos : d.toNat - '0'.toNat ≠ 0 := holds_of_isDigit
    (P := fun d => d ≠ '0' → d.toNat - '0'.toNat ≠ 0) (by decide) h hd
  rw [Nat.ofDigitChars_cons, Nat.mul_zero, Nat.zero_add, Nat.ofDigitChars_eq_ofDigitChars_zero]
  have hpow : 0 < 10 ^ digits.length := Nat.pow_pos (by decide)
  have hscaled := Nat.mul_ne_zero hpow.ne' hpos
  omega

theorem trimFraction_cons (d : Char) (digits : List Char) :
    trimFraction (d :: digits) = d :: digits.rdropWhile (· == '0') := rfl

/-- A fraction is its trimmed form with zeros behind it. -/
theorem trimFraction_append (digits : List Char) :
    ∃ count, digits = trimFraction digits ++ List.replicate count '0' := by
  cases digits with
  | nil => exact ⟨0, rfl⟩
  | cons d digits =>
    have hzeros : digits.rtakeWhile (· == '0') =
        List.replicate (digits.rtakeWhile (· == '0')).length '0' :=
      List.eq_replicate_of_mem fun c hc => by simpa using List.mem_rtakeWhile_imp hc
    refine ⟨(digits.rtakeWhile (· == '0')).length, ?_⟩
    rw [trimFraction_cons, List.cons_append, ← hzeros, List.rdropWhile_append_rtakeWhile]

theorem trimFraction_trimFraction (digits : List Char) :
    trimFraction (trimFraction digits) = trimFraction digits := by
  cases digits with
  | nil => rfl
  | cons d digits => rw [trimFraction_cons, trimFraction_cons, List.rdropWhile_idempotent]

/-! ## Values of normal forms -/

namespace ExponentParts

variable {e : ExponentParts}

/-- A tidy exponent is the same number. Its mark is a small letter, it has no plus, and no leading
zero unless it is zero. -/
theorem tidy_spec (h : e.WellFormed) :
    e.tidy.value = e.value ∧ e.tidy.sign.filter (· == '-') = e.tidy.sign ∧
      (e.tidy.digits.head? ≠ some '0' ∨ e.tidy.isZero = true) := by
  obtain ⟨trimmed, htrim, -⟩ := dropLeadingZeros_digits h.digits_ne h.digits
  obtain ⟨hvalue, hhead⟩ := dropLeadingZeros_spec h.digits htrim
  have hdigits : e.tidy.digits = trimmed := by rw [tidy, htrim, Option.getD_some]
  refine ⟨?value, by simp [tidy, List.filter_filter], ?head⟩
  case value =>
    have hsign : (e.tidy.sign = ['-']) = (e.sign = ['-']) := by
      rcases h.sign with hs | hs | hs <;> simp [tidy, hs]
    simp only [value, hdigits, hvalue, hsign]
  case head =>
    rw [isZero, hdigits]
    exact hhead.imp_right fun hzero => by rw [hzero]; rfl

theorem value_of_isZero (h : e.isZero = true) : e.value = 0 := by
  rw [value, ofDigitChars_eq_zero h, Int.natCast_zero, Int.mul_zero]

end ExponentParts

namespace NumberParts

variable {p : NumberParts}

theorem value_lower (p : NumberParts) : p.lower.value = p.value := by
  have hpower : p.lower.power = p.power := by
    unfold power lower
    cases p.exponent <;> rfl
  rw [value, hpower]
  rfl

theorem value_tidy (h : p.WellFormed) : p.tidy.value = p.value := by
  have hpower : p.tidy.power = p.power := by
    unfold power tidy
    cases he : p.exponent with
    | none => rfl
    | some e => exact (ExponentParts.tidy_spec (h.exponent e he)).1
  rw [value, hpower]
  rfl

theorem value_dropZeroExponent (p : NumberParts) : p.dropZeroExponent.value = p.value := by
  have hpower : p.dropZeroExponent.power = p.power := by
    unfold power dropZeroExponent
    cases p.exponent with
    | none => rfl
    | some e =>
      cases hzero : e.isZero with
      | true => simp [Option.filter, hzero, e.value_of_isZero hzero]
      | false => simp [Option.filter, hzero]
  rw [value, hpower]
  rfl

/-- Each zero that is dropped from the digits is one less place behind the point. -/
theorem value_trim (p : NumberParts) : p.trim.value = p.value := by
  obtain ⟨count, hfraction⟩ := trimFraction_append p.fraction
  have hdigits : Nat.ofDigitChars 10 (p.whole ++ p.fraction) 0 =
      10 ^ count * Nat.ofDigitChars 10 (p.whole ++ trimFraction p.fraction) 0 := by
    conv_lhs => rw [hfraction]
    rw [← List.append_assoc, Nat.ofDigitChars_append, Nat.ofDigitChars_replicate_zero]
  have hlength : (p.fraction.length : Int) = (trimFraction p.fraction).length + count := by
    conv_lhs => rw [hfraction]
    simp
  have hten : (10 : ℚ) ≠ 0 := by decide
  have hscale : (10 : ℚ) ^ (p.power - (trimFraction p.fraction).length) =
      10 ^ count * 10 ^ (p.power - p.fraction.length) := by
    rw [← zpow_natCast, ← zpow_add₀ hten, hlength]
    congr 1
    omega
  have htrim : p.trim.value = (if p.isNegative then -1 else 1) *
      (Nat.ofDigitChars 10 (p.whole ++ trimFraction p.fraction) 0 : Nat) *
      (10 : ℚ) ^ (p.power - (trimFraction p.fraction).length) := rfl
  rw [htrim, value, hscale, hdigits, Nat.cast_mul, Nat.cast_pow, Nat.cast_ofNat]
  ring

theorem value_normal (h : p.WellFormed) : p.normal.value = p.value := by
  rw [normal, value_trim, value_dropZeroExponent, value_tidy h]

/-! ## Normal forms -/

/-- The number is in normal form: an exponent begins with a small letter, and has neither a plus nor
leading zeros, and no zero can be dropped at the end of the fraction. -/
structure IsNormal (p : NumberParts) : Prop where
  mark : ∀ e ∈ p.exponent, e.mark = 'e'
  sign : ∀ e ∈ p.exponent, e.sign.filter (· == '-') = e.sign
  digits : ∀ e ∈ p.exponent, e.digits.head? ≠ some '0'
  fraction : trimFraction p.fraction = p.fraction

theorem isNormal_normal (h : p.WellFormed) : p.normal.IsNormal := by
  have hexponent : ∀ e ∈ p.normal.exponent,
      ∃ e' ∈ p.exponent, e = e'.tidy ∧ e'.tidy.isZero = false := by
    intro e he
    have hkept : e ∈ (p.exponent.map ExponentParts.tidy).filter fun e => !e.isZero := he
    obtain ⟨htidy, hzero⟩ := Option.filter_eq_some_iff.1 hkept
    obtain ⟨e', he', rfl⟩ := Option.map_eq_some_iff.1 htidy
    exact ⟨e', he', rfl, by simpa using hzero⟩
  constructor
  case mark =>
    intro e he
    obtain ⟨e', -, rfl, -⟩ := hexponent e he
    rfl
  case sign =>
    intro e he
    obtain ⟨e', he', rfl, -⟩ := hexponent e he
    exact (ExponentParts.tidy_spec (h.exponent e' he')).2.1
  case digits =>
    intro e he
    obtain ⟨e', he', rfl, hzero⟩ := hexponent e he
    exact (ExponentParts.tidy_spec (h.exponent e' he')).2.2.resolve_right (by simp [hzero])
  case fraction => exact trimFraction_trimFraction _

/-- A digit string without a leading zero is not zero. -/
theorem IsNormal.value_ne_zero (hn : p.IsNormal) (h : p.WellFormed) :
    ∀ e ∈ p.exponent, e.isZero = false ∧ e.value ≠ 0 := by
  intro e he
  have hwf := h.exponent e he
  obtain ⟨d, ds, hd⟩ := List.exists_cons_of_ne_nil hwf.digits_ne
  have hzero : d ≠ '0' := fun heq => hn.digits e he (by rw [hd, heq]; rfl)
  have hdigit : d.isDigit = true := hwf.digits d (by simp [hd])
  refine ⟨by simp [ExponentParts.isZero, hd, hzero], ?_⟩
  have hne := ofDigitChars_ne_zero hdigit hzero ds
  rw [ExponentParts.value, hd]
  split <;> omega

/-- A number in normal form is its own normal form. -/
theorem IsNormal.normal_lower (hn : p.IsNormal) (h : p.WellFormed) : p.lower.normal = p := by
  have hexponent : p.lower.normal.exponent = p.exponent := by
    show ((p.exponent.map ExponentParts.lower).map ExponentParts.tidy).filter
      (fun e => !e.isZero) = p.exponent
    cases he : p.exponent with
    | none => rfl
    | some e =>
      have hwf := h.exponent e he
      have hsame : e.lower.tidy = e := by
        have hdigits := dropLeadingZeros_of_head hwf.digits_ne hwf.digits (hn.digits e he)
        simp only [ExponentParts.lower, ExponentParts.tidy, hn.sign e he, hdigits,
          Option.getD_some, ← hn.mark e he]
      simp [hsame, Option.filter, (hn.value_ne_zero h e he).1]
  have hfraction : p.lower.normal.fraction = p.fraction := hn.fraction
  calc p.lower.normal
      = ⟨p.isNegative, p.whole, p.lower.normal.fraction, p.lower.normal.exponent⟩ := rfl
    _ = p := by rw [hfraction, hexponent]

/-- In a normal form there is neither a plus nor a capital. -/
theorem IsNormal.not_mem (hn : p.IsNormal) (h : p.WellFormed) : 'E' ∉ p.text ∧ '+' ∉ p.text := by
  have hdigit : ∀ c : Char, c.isDigit = true → c ≠ 'E' ∧ c ≠ '+' := fun c hc => by
    constructor <;> rintro rfl <;> exact absurd hc (by decide)
  have hchars : ∀ c ∈ p.text, c ≠ 'E' ∧ c ≠ '+' := by
    simp only [text, List.forall_mem_append]
    refine ⟨⟨⟨?sign, fun c hc => hdigit c (h.whole c hc)⟩, ?fraction⟩, ?exponent⟩
    case sign =>
      unfold signText
      split <;> simp
    case fraction =>
      unfold fractionText
      split
      · simp
      · exact List.forall_mem_cons.2 ⟨by decide, fun c hc => hdigit c (h.fraction c hc)⟩
    case exponent =>
      unfold exponentText
      cases he : p.exponent with
      | none => simp
      | some e =>
        have hwf := h.exponent e he
        refine List.forall_mem_cons.2 ⟨by rw [hn.mark e he]; decide, ?_⟩
        refine List.forall_mem_append.2 ⟨fun c hc => ?_, fun c hc => hdigit c (hwf.digits c hc)⟩
        rw [← hn.sign e he] at hc
        have hminus : c = '-' := by simpa using (List.mem_filter.1 hc).2
        rw [hminus]
        decide
  exact ⟨fun hmem => (hchars _ hmem).1 rfl, fun hmem => (hchars _ hmem).2 rfl⟩

end NumberParts

end LintTypes.Source

namespace LintTypes.NumberText

open Source

/-- The normal form of a number literal is a number literal with the same value and the same sign.
It has no capital and no plus, its exponent has no leading zero and is not zero, and it is its own
normal form. -/
theorem value_normalize {text : String} (h : IsNumber text.toList) :
    IsNumber (normalize text).toList ∧ value (normalize text) = value text ∧
      ((normalize text).toList.head? = some '-' ↔ text.toList.head? = some '-') ∧
      'E' ∉ (normalize text).toList ∧ '+' ∉ (normalize text).toList ∧
      (∀ e ∈ (NumberParts.ofText (normalize text).toList).exponent,
        e.digits.head? ≠ some '0' ∧ e.value ≠ 0) ∧
      normalize (normalize text) = normalize text := by
  obtain ⟨p, hp, htext⟩ := h
  have hwf := hp.lower.normal
  have hnormal := NumberParts.isNormal_normal hp.lower
  have hprinted : (normalize text).toList = p.lower.normal.text := by
    rw [normalize, String.toList_ofList, ← htext, NumberParts.normalizeChars_text hp]
  have hhead : ∀ {q : NumberParts}, q.WellFormed →
      (q.text.head? = some '-' ↔ q.isNegative = true) := by
    intro q hq
    obtain ⟨d, ds, hd⟩ := List.exists_cons_of_ne_nil hq.whole_ne
    have hdigit : d ≠ '-' := (digit_facts (hq.whole d (by simp [hd]))).2.2.2.2.2.2
    rw [q.text_eq, NumberParts.signText, hd]
    cases q.isNegative <;> simp [hdigit]
  obtain ⟨hcapital, hplus⟩ := hnormal.not_mem hwf
  refine ⟨⟨_, hwf, hprinted.symm⟩, ?value, ?sign, ?_, ?_, ?exponent, ?again⟩
  case value =>
    rw [value, value, hprinted, ← htext, NumberParts.ofText_text hwf, NumberParts.ofText_text hp,
      NumberParts.value_normal hp.lower, NumberParts.value_lower]
  case sign =>
    rw [hprinted, ← htext, hhead hwf, hhead hp]
    exact Iff.rfl
  case exponent =>
    rw [hprinted, NumberParts.ofText_text hwf]
    exact fun e he => ⟨hnormal.digits e he, (hnormal.value_ne_zero hwf e he).2⟩
  case again =>
    refine String.toList_inj.1 ?_
    rw [normalize, String.toList_ofList, hprinted, NumberParts.normalizeChars_text hwf,
      hnormal.normal_lower hwf]
  · rwa [hprinted]
  · rwa [hprinted]

/-- Zeros are dropped on both sides of the mark, the plus and the capital as well. -/
theorem value_normalize_paddedExponent :
    IsNumber "-12.0500E+007".toList ∧ normalize "-12.0500E+007" = "-12.05e7" ∧
      value "-12.05e7" = value "-12.0500E+007" ∧ value "-12.0500E+007" = -120500000 ∧
      normalize "-12.05e7" = "-12.05e7" := by
  have hparts : NumberParts.WellFormed
      ⟨true, "12".toList, "0500".toList, some ⟨'E', ['+'], "007".toList⟩⟩ :=
    ⟨by decide, by decide, by decide,
      by rintro _ ⟨⟩; exact ⟨.inr rfl, by decide, by decide, by decide⟩⟩
  have hnumber : IsNumber "-12.0500E+007".toList := ⟨_, hparts, rfl⟩
  have hprinted : normalize "-12.0500E+007" = "-12.05e7" := by decide +kernel
  obtain ⟨-, hvalue, -, -, -, -, hagain⟩ := value_normalize hnumber
  rw [hprinted] at hvalue hagain
  refine ⟨hnumber, hprinted, hvalue, ?_, hagain⟩
  have htext : "-12.0500E+007".toList =
      NumberParts.text ⟨true, "12".toList, "0500".toList, some ⟨'E', ['+'], "007".toList⟩⟩ := rfl
  rw [value, htext, NumberParts.ofText_text hparts]
  have hdigits : Nat.ofDigitChars 10 ("12".toList ++ "0500".toList) 0 = 120500 := by decide
  have hpower : (7 : Int) - 4 = 3 := by decide
  show (if true then -1 else 1) * (Nat.ofDigitChars 10 ("12".toList ++ "0500".toList) 0 : ℚ) *
    (10 : ℚ) ^ ((7 : Int) - 4) = _
  rw [hdigits, hpower]
  norm_num

end LintTypes.NumberText
