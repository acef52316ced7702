import LintTypes.Proofs.DecimalForms
import LintTypes.Proofs.NumberValues
import LintTypes.Proofs.Rounding

/-!
# Reading numbers back from their texts

The text of a JSON number stands for that number. Of an integer it is the exact value. Of a binary64
number it is the shortest decimal in the interval around it, and every ratio in that interval is
rounded to the number. That there is such a decimal is a matter of the finest grid that is searched:
it has a point in every interval, since its points lie closer than half a unit of the last place.

What a literal is read as (`NumberText.ReadAs`) is said of its text alone. It is one number only, so
the text of a number is read as that number and as nothing else.
-/

namespace LintTypes

open Source

namespace Binary64

/-! ## Grids -/

/-- The ratio that a decimal stands for. -/
def Decimal.value (d : Decimal) : ℚ := d.digits * (10 : ℚ) ^ d.exponent

theorem zpow_mul_toNat {base : ℚ} (h : base ≠ 0) (n : ℤ) :
    base ^ n * base ^ (-n).toNat = base ^ n.toNat := by
  rw [← zpow_natCast, ← zpow_natCast, ← zpow_add₀ h]
  congr 1
  omega

section Grids

variable (x : Binary64) (power : ℤ)

/-- The common unit of a grid and the bounds of an interval, as a ratio. -/
def scaling : ℚ := 2 ^ (2 - x.exponent).toNat * 10 ^ (-power).toNat

/-- How many common units a quarter of a unit of the last place has. -/
def quarterUnits : ℕ := Nat.pow 2 (x.exponent - 2).toNat * Nat.pow 10 (-power).toNat

/-- How many common units there are from one point of the grid to the next. -/
def gridUnits : ℕ := Nat.pow 2 (2 - x.exponent).toNat * Nat.pow 10 power.toNat

theorem scaling_pos : 0 < scaling x power := by
  unfold scaling
  positivity

theorem quarterUnits_eq :
    (quarterUnits x power : ℚ) = 2 ^ (x.exponent - 2) * scaling x power := by
  have htwo := zpow_mul_toNat (show (2 : ℚ) ≠ 0 by norm_num) (x.exponent - 2)
  rw [neg_sub] at htwo
  rw [quarterUnits, scaling, ← mul_assoc, htwo]
  norm_cast

theorem gridUnits_eq : (gridUnits x power : ℚ) = 10 ^ power * scaling x power := by
  have hten := zpow_mul_toNat (show (10 : ℚ) ≠ 0 by norm_num) power
  rw [gridUnits, scaling, mul_left_comm, hten]
  norm_cast

variable {x power}

/-- A point of the grid is compared with a bound in common units. -/
theorem units_le_iff (bound digits : ℕ) :
    (bound * quarterUnits x power ≤ digits * gridUnits x power ↔
      (bound : ℚ) * 2 ^ (x.exponent - 2) ≤ Decimal.value ⟨digits, power⟩) ∧
    (digits * gridUnits x power ≤ bound * quarterUnits x power ↔
      Decimal.value ⟨digits, power⟩ ≤ (bound : ℚ) * 2 ^ (x.exponent - 2)) := by
  have hpos := scaling_pos x power
  have hbound : ((bound * quarterUnits x power : ℕ) : ℚ) =
      bound * 2 ^ (x.exponent - 2) * scaling x power := by
    rw [Nat.cast_mul, quarterUnits_eq, mul_assoc]
  have hpoint : ((digits * gridUnits x power : ℕ) : ℚ) =
      Decimal.value ⟨digits, power⟩ * scaling x power := by
    rw [Nat.cast_mul, gridUnits_eq, ← mul_assoc]
    rfl
  rw [← Nat.cast_le (α := ℚ), hbound, hpoint, ← Nat.cast_le (α := ℚ), hpoint, hbound,
    mul_le_mul_iff_of_pos_right hpos, mul_le_mul_iff_of_pos_right hpos]
  exact ⟨Iff.rfl, Iff.rfl⟩

/-- What is checked in common units holds of the ratio. -/
theorem IsInside.of_contains {digits : ℕ}
    (h : x.interval.contains (digits * gridUnits x power) (quarterUnits x power) = true) :
    x.IsInside (Decimal.value ⟨digits, power⟩) := by
  obtain ⟨hlow, hlow'⟩ := @units_le_iff x power x.interval.low digits
  obtain ⟨hhigh', hhigh⟩ := @units_le_iff x power x.interval.high digits
  unfold Interval.contains at h
  by_cases heven : x.significand % 2 = 0
  · have hclosed : x.interval.closed = true := decide_eq_true heven
    simp only [hclosed, if_true, Bool.and_eq_true, decide_eq_true_eq] at h
    exact ⟨hlow.1 h.1, hhigh.1 h.2, fun _ => heven⟩
  · have hopen : x.interval.closed = false := decide_eq_false heven
    simp only [hopen, Bool.false_eq_true, if_false, Bool.and_eq_true, decide_eq_true_eq,
      ← Nat.not_le] at h
    rw [hlow', hhigh'] at h
    exact ⟨(not_le.1 h.1).le, (not_le.1 h.2).le, fun hends => by
      rcases hends with hend | hend
      · exact absurd hend.le h.1
      · exact absurd hend.ge h.2⟩

theorem onGrid?_eq (x : Binary64) (power : ℤ) :
    x.onGrid? power =
      let below := x.interval.mid * quarterUnits x power / gridUnits x power
      match x.interval.contains (below * gridUnits x power) (quarterUnits x power),
        x.interval.contains ((below + 1) * gridUnits x power) (quarterUnits x power) with
      | true, true =>
        if x.interval.mid * quarterUnits x power - below * gridUnits x power <
            (below + 1) * gridUnits x power - x.interval.mid * quarterUnits x power ∨
          (x.interval.mid * quarterUnits x power - below * gridUnits x power =
            (below + 1) * gridUnits x power - x.interval.mid * quarterUnits x power ∧
            below % 2 = 0) then some ⟨below, power⟩
        else some ⟨below + 1, power⟩
      | true, false => some ⟨below, power⟩
      | false, true => some ⟨below + 1, power⟩
      | false, false => none :=
  rfl

/-- A point that is found on a grid is in the interval. -/
theorem isInside_of_onGrid? {d : Decimal} (h : x.onGrid? power = some d) : x.IsInside d.value := by
  rw [onGrid?_eq] at h
  extract_lets below at h
  split at h
  · rename_i hbelow habove
    split at h
    · cases h
      exact .of_contains hbelow
    · cases h
      exact .of_contains habove
  · rename_i hbelow _
    cases h
    exact .of_contains hbelow
  · rename_i _ habove
    cases h
    exact .of_contains habove
  · cases h

/-- On a grid with points closer than half a unit of the last place, one is found. -/
theorem isSome_onGrid? (h : gridUnits x power < 2 * quarterUnits x power) :
    (x.onGrid? power).isSome = true := by
  have hgrid : 0 < gridUnits x power :=
    Nat.mul_pos (Nat.pow_pos (by decide)) (Nat.pow_pos (by decide))
  have habove : x.interval.contains
      ((x.interval.mid * quarterUnits x power / gridUnits x power + 1) * gridUnits x power)
      (quarterUnits x power) = true := by
    have hmid : x.interval.mid * quarterUnits x power <
        (x.interval.mid * quarterUnits x power / gridUnits x power + 1) * gridUnits x power :=
      (Nat.lt_mul_div_succ _ hgrid).trans_eq (Nat.mul_comm ..)
    have hnext : (x.interval.mid * quarterUnits x power / gridUnits x power + 1) *
        gridUnits x power ≤ x.interval.mid * quarterUnits x power + gridUnits x power := by
      rw [Nat.add_mul, Nat.one_mul]
      exact Nat.add_le_add_right (Nat.div_mul_le_self ..) _
    have hlow : x.interval.low * quarterUnits x power ≤
        x.interval.mid * quarterUnits x power := by
      refine Nat.mul_le_mul_right _ ?_
      simp only [interval]
      omega
    have hhigh : x.interval.high * quarterUnits x power =
        x.interval.mid * quarterUnits x power + 2 * quarterUnits x power := Nat.add_mul ..
    unfold Interval.contains
    split <;> simp only [Bool.and_eq_true, decide_eq_true_eq] <;> omega
  rw [onGrid?_eq]
  extract_lets below
  rw [show x.interval.contains ((below + 1) * gridUnits x power) (quarterUnits x power) = true
    from habove]
  split <;> simp_all
  split <;> rfl

end Grids

/-! ## The finest grid -/

/-- Powers of ten and of two that are far enough apart, on both sides of one: three bits and a third
are more than a decimal digit, and 43 bits less than 13 of them. -/
theorem ten_zpow_le {m n : ℤ} (hup : 10 * m ≤ 3 * n) (hdown : 43 * m ≤ 13 * n) :
    (10 : ℚ) ^ m ≤ 2 ^ n := by
  have hten : (0 : ℚ) ≤ 10 ^ m := by positivity
  have htwo : (0 : ℚ) ≤ 2 ^ n := by positivity
  rcases le_total 0 m with hm | hm
  · refine (pow_le_pow_iff_left₀ hten htwo (show 3 ≠ 0 by decide)).1 ?_
    calc ((10 : ℚ) ^ m) ^ 3 = (10 ^ 3) ^ m := by rw [← zpow_natCast, ← zpow_natCast, zpow_comm]
      _ ≤ (2 ^ 10) ^ m := zpow_le_zpow_left₀ hm (by norm_num) (by norm_num)
      _ = 2 ^ (10 * m) := by rw [← zpow_natCast, ← zpow_mul]; rfl
      _ ≤ 2 ^ (3 * n) := zpow_le_zpow_right₀ (by norm_num) hup
      _ = ((2 : ℚ) ^ n) ^ 3 := by rw [mul_comm, zpow_mul]; rfl
  · refine (pow_le_pow_iff_left₀ hten htwo (show 13 ≠ 0 by decide)).1 ?_
    calc ((10 : ℚ) ^ m) ^ 13 = (10 ^ 13) ^ m := by rw [← zpow_natCast, ← zpow_natCast, zpow_comm]
      _ ≤ (2 ^ 43) ^ m := by
        have hbits : (2 : ℚ) ^ 43 ≤ 10 ^ 13 := by norm_num
        have hinverse :=
          zpow_le_zpow_left₀ (Int.neg_nonneg_of_nonpos hm) (by positivity) hbits
        rw [zpow_neg, zpow_neg] at hinverse
        exact (inv_le_inv₀ (by positivity) (by positivity)).1 hinverse
      _ = 2 ^ (43 * m) := by rw [← zpow_natCast, ← zpow_mul]; rfl
      _ ≤ 2 ^ (13 * n) := zpow_le_zpow_right₀ (by norm_num) hdown
      _ = ((2 : ℚ) ^ n) ^ 13 := by rw [mul_comm, zpow_mul]; rfl

/-- The twentieth grid is finer than half a unit of the last place. -/
theorem gridUnits_lt (x : Binary64) :
    gridUnits x (x.topPower - 19) < 2 * quarterUnits x (x.topPower - 19) := by
  have hbits : x.significand.log2 ≤ 52 := by
    by_cases hzero : x.significand = 0
    · simp [hzero]
    · exact Nat.lt_succ_iff.1 ((Nat.log2_lt hzero).2 x.significand_lt)
  have hleast := x.minExponent_le
  have hgreatest := x.le_maxExponent
  have hpower : (10 : ℚ) ^ (x.topPower - 1) ≤ 2 ^ (x.exponent + 58) := by
    refine ten_zpow_le ?_ ?_ <;> unfold topPower minExponent maxExponent at * <;> omega
  have hfine : (10 : ℚ) ^ (x.topPower - 19) < 2 * 2 ^ (x.exponent - 2) := by
    refine lt_of_mul_lt_mul_right ?_ (by norm_num : (0 : ℚ) ≤ 10 ^ 18)
    calc (10 : ℚ) ^ (x.topPower - 19) * 10 ^ 18 = 10 ^ (x.topPower - 1) := by
          rw [← zpow_natCast, ← zpow_add₀ (by norm_num)]
          congr 1
          omega
      _ ≤ 2 ^ (x.exponent + 58) := hpower
      _ = 2 * 2 ^ (x.exponent - 2) * 2 ^ 59 := by
          rw [← two_zpow_eq rfl, ← zpow_natCast, ← zpow_add₀ (by norm_num)]
          congr 1
          omega
      _ < 2 * 2 ^ (x.exponent - 2) * 10 ^ 18 := by
          have hpos := two_zpow_pos (x.exponent - 2)
          gcongr
          norm_num
  have hpos := scaling_pos x (x.topPower - 19)
  rw [← Nat.cast_lt (α := ℚ), gridUnits_eq, Nat.cast_mul, quarterUnits_eq, ← mul_assoc]
  exact mul_lt_mul_of_pos_right (by exact_mod_cast hfine) hpos

/-! ## Shortest decimals -/

/-- Dropping zeros does not change the ratio. -/
theorem Decimal.value_strip (d : Decimal) : d.strip.value = d.value := by
  fun_induction Decimal.strip d with
  | case1 d hdivisible ih =>
    have hdigits : d.digits = d.digits / 10 * 10 := by omega
    rw [ih, value, value, zpow_add_one₀ (by norm_num)]
    conv_rhs => rw [hdigits]
    push_cast
    ring
  | case2 => rfl

/-- The shortest decimal of a number is in its interval. -/
theorem isInside_shortest (x : Binary64) : x.IsInside x.shortest.value := by
  have hfound : (((List.range 20).map fun n : Nat => x.topPower - n).findSome? x.onGrid?).isSome =
      true := by
    rw [List.findSome?_isSome_iff]
    exact ⟨x.topPower - 19, List.mem_map.2 ⟨19, by simp, rfl⟩, isSome_onGrid? (gridUnits_lt x)⟩
  obtain ⟨d, hd⟩ := Option.isSome_iff_exists.1 hfound
  obtain ⟨power, -, hgrid⟩ := List.exists_of_findSome?_eq_some hd
  have hshortest : x.shortest = d.strip := by
    unfold shortest
    dsimp only
    rw [hd, Option.getD_some]
  rw [hshortest, Decimal.value_strip]
  exact isInside_of_onGrid? hgrid

end Binary64

/-! ## Values of texts -/

namespace Source

theorem ofDigitChars_toString (n : ℕ) : Nat.ofDigitChars 10 (toString n).toList 0 = n := by
  rw [Nat.toString_eq_ofList_toDigits, String.toList_ofList, Nat.ofDigitChars_ten_toDigits]

theorem NumberParts.value_eq {p : NumberParts} (hp : p.isNegative = false) {digits : ℕ} {power : ℤ}
    (hdigits : Nat.ofDigitChars 10 (p.whole ++ p.fraction) 0 = digits)
    (hpower : p.power - p.fraction.length = power) : p.value = digits * (10 : ℚ) ^ power := by
  rw [value, hp, hdigits, hpower]
  simp

theorem NumberParts.value_withSign {p : NumberParts} (hp : p.isNegative = false) (negative : Bool) :
    { p with isNegative := negative }.value = if negative then -p.value else p.value := by
  cases negative <;> simp [value, power, hp]

/-- An exponent is read back from its text. -/
theorem ExponentParts.value_ofInt (n : ℤ) :
    ExponentParts.value ⟨'e', [if n < 0 then '-' else '+'], (toString n.natAbs).toList⟩ = n := by
  rw [value, ofDigitChars_toString]
  by_cases hn : n < 0
  · simp only [hn, if_true]
    omega
  · simp only [hn, if_false]
    simp
    omega

/-- A decimal has a point or an exponent. -/
theorem fraction_or_exponent_decimalParts {digits : List Char} (hne : digits ≠ []) (exponent : ℤ) :
    (decimalParts digits exponent).fraction ≠ [] ∨
      (decimalParts digits exponent).exponent ≠ none := by
  have hpos : 0 < digits.length := List.length_pos_iff.2 hne
  unfold decimalParts
  extract_lets leading
  split
  · left
    split
    · exact List.cons_ne_nil _ _
    split
    · rw [← List.length_pos_iff, List.length_drop]
      omega
    · exact List.append_ne_nil_of_right_ne_nil _ hne
  · exact .inr (Option.some_ne_none _)

/-- The text of a decimal stands for its digits under its power of ten. -/
theorem value_decimalParts {digits : List Char} (hne : digits ≠ []) (exponent : ℤ) :
    (decimalParts digits exponent).value =
      (Nat.ofDigitChars 10 digits 0 : ℕ) * (10 : ℚ) ^ exponent := by
  have hpos : 0 < digits.length := List.length_pos_iff.2 hne
  unfold decimalParts
  extract_lets leading
  -- Wherever the point is put, the exponent makes up for the digits behind it.
  by_cases hplain : -5 ≤ leading ∧ leading < 16
  · rw [if_pos hplain]
    by_cases hexponent : 0 ≤ exponent
    · rw [if_pos hexponent]
      obtain ⟨count, rfl⟩ := Int.eq_ofNat_of_zero_le hexponent
      have hdigits : Nat.ofDigitChars 10 (digits ++ List.replicate count '0' ++ ['0']) 0 =
          10 * (10 ^ count * Nat.ofDigitChars 10 digits 0) := by
        rw [Nat.ofDigitChars_append, Nat.ofDigitChars_append, Nat.ofDigitChars_replicate_zero]
        rfl
      rw [NumberParts.value_eq rfl hdigits rfl]
      simp [NumberParts.power]
      ring
    rw [if_neg hexponent]
    by_cases hleading : 0 ≤ leading
    · rw [if_pos hleading]
      refine NumberParts.value_eq rfl (by rw [List.take_append_drop]) ?_
      rw [List.length_drop]
      simp only [NumberParts.power, Option.map_none, Option.getD_none]
      omega
    · rw [if_neg hleading]
      refine NumberParts.value_eq rfl ?_ ?_
      · show Nat.ofDigitChars 10 ('0' :: (List.replicate (-leading - 1).toNat '0' ++ digits)) 0 = _
        rw [Nat.ofDigitChars_cons, Nat.ofDigitChars_append, Nat.ofDigitChars_replicate_zero]
        simp
      · rw [List.length_append, List.length_replicate]
        simp only [NumberParts.power, Option.map_none, Option.getD_none]
        omega
  · rw [if_neg hplain]
    refine NumberParts.value_eq rfl (by rw [List.take_append_drop]) ?_
    rw [List.length_drop]
    simp only [NumberParts.power, Option.map_some, Option.getD_some, ExponentParts.value_ofInt]
    omega

end Source

/-! ## Numbers -/

/-- The number itself. -/
def JsonNumber.value : JsonNumber → ℚ
  | .integer n => n.value
  | .real x => x.value

namespace NumberText

/-- The text has neither a point nor an exponent. -/
def IsWhole (text : String) : Prop := ∀ c ∈ text.toList, c ≠ '.' ∧ c ≠ 'e' ∧ c ≠ 'E'

/-- The number that a literal is read as. One without a point and an exponent is an integer, if 64
bits hold it; any other one is rounded to the nearest binary64 number. -/
inductive ReadAs (text : String) : ℚ → Prop where
  /-- An integer. -/
  | integer (n : JsonInteger) (hn : IsNumber text.toList) (hw : IsWhole text)
      (hv : NumberText.value text = n.value) : ReadAs text n.value
  /-- A binary64 number. -/
  | real (x : Binary64) (hn : IsNumber text.toList)
      (hw : ¬(IsWhole text ∧ ∃ n : JsonInteger, NumberText.value text = n.value))
      (hx : x.IsNearest (NumberText.value text)) : ReadAs text x.value

/-- A literal is read as one number only. -/
theorem ReadAs.unique {text : String} {q q' : ℚ} (h : ReadAs text q) (h' : ReadAs text q') :
    q = q' := by
  cases h with
  | integer n _ hw hv =>
    cases h' with
    | integer _ _ _ hv' => exact hv.symm.trans hv'
    | real _ _ hw' => exact absurd ⟨hw, n, hv⟩ hw'
  | real x _ hw hx =>
    cases h' with
    | integer n _ hw' hv => exact absurd ⟨hw', n, hv⟩ hw
    | real _ _ _ hx' => exact hx.value_eq hx'

end NumberText

namespace JsonNumber

/-- The text of a number stands for what its parts stand for. -/
theorem value_text (number : JsonNumber) : NumberText.value number.text = number.parts.value := by
  rw [NumberText.value, ← number.text_parts, NumberParts.ofText_text number.wellFormed_parts]

/-- An integer is written with nothing but digits behind its sign. -/
theorem isWhole_text (n : JsonInteger) : NumberText.IsWhole (integer n).text := by
  intro c hc
  rw [← text_parts] at hc
  have hdigit : ∀ d : Char, d.isDigit = true → d ≠ '.' ∧ d ≠ 'e' ∧ d ≠ 'E' := by
    intro d hd
    refine ⟨?_, ?_, ?_⟩ <;> rintro rfl <;> exact absurd hd (by decide)
  have hsplit : c ∈ (integer n).parts.signText ∨ c ∈ (toString n.value.natAbs).toList := by
    simpa [NumberParts.text, NumberParts.fractionText, NumberParts.exponentText, parts] using hc
  rcases hsplit with hsign | hwhole
  · unfold NumberParts.signText at hsign
    split at hsign
    · rw [List.mem_singleton.1 hsign]
      decide
    · cases hsign
  · exact hdigit c ((digits_toString _).2 c hwhole)

/-- Any other number is written with a point or with an exponent. -/
theorem not_isWhole_text (x : Binary64) : ¬NumberText.IsWhole (real x).text := by
  intro hwhole
  rw [NumberText.IsWhole, ← text_parts, NumberParts.text_eq] at hwhole
  simp only [List.forall_mem_append] at hwhole
  obtain ⟨-, -, hfraction, hexponent⟩ := hwhole
  have hnoFraction : (real x).parts.fraction = [] := by
    by_contra hne
    rw [NumberParts.fractionText, if_neg hne] at hfraction
    exact (hfraction '.' (List.mem_cons_self ..)).1 rfl
  have hnoExponent : (real x).parts.exponent = none := by
    by_contra hne
    obtain ⟨e, he⟩ := Option.ne_none_iff_exists'.1 hne
    have hmark := ((wellFormed_parts _).exponent e he).mark
    rw [NumberParts.exponentText, he] at hexponent
    obtain ⟨-, hsmall, hcapital⟩ := hexponent e.mark (List.mem_cons_self ..)
    exact hmark.elim hsmall hcapital
  refine Or.elim ?_ (absurd hnoFraction) (absurd hnoExponent)
  simp only [parts]
  split
  · exact .inl (List.cons_ne_nil _ _)
  · exact fraction_or_exponent_decimalParts (digits_toString _).1 _

theorem value_parts_integer (n : JsonInteger) : (integer n).parts.value = n.value := by
  have habs : ((n.value.natAbs : ℤ) : ℚ) = |(n.value : ℚ)| := by
    rw [Int.natCast_natAbs, Int.cast_abs]
  rw [Int.cast_natCast] at habs
  simp only [NumberParts.value, NumberParts.power, parts, List.append_nil, ofDigitChars_toString,
    habs, decide_eq_true_eq]
  split
  · rw [abs_of_neg (by exact_mod_cast ‹n.value < 0›)]
    simp
  · rw [abs_of_nonneg (by exact_mod_cast Int.not_lt.1 ‹¬n.value < 0›)]
    simp

/-- The text of a binary64 number is rounded to it. -/
theorem isNearest_text (x : Binary64) : x.IsNearest (NumberText.value (real x).text) := by
  rw [value_text, parts]
  by_cases hzero : x.significand = 0
  · have hvalue : (NumberParts.mk false ['0'] ['0'] none).value = 0 := by
      rw [@NumberParts.value_eq _ rfl 0 _ rfl rfl, Nat.cast_zero, zero_mul]
    rw [if_pos hzero, NumberParts.value_withSign rfl, hvalue, neg_zero, ite_self]
    exact Binary64.isNearest_zero hzero
  · rw [if_neg hzero, NumberParts.value_withSign (isNegative_decimalParts _ _),
      value_decimalParts (digits_toString _).1, ofDigitChars_toString]
    exact x.isInside_shortest.isNearest hzero

/-- The text of a number is read as that number. -/
theorem readAs_text (number : JsonNumber) : NumberText.ReadAs number.text number.value := by
  cases number with
  | integer n =>
    exact .integer n (isNumber_text _) (isWhole_text n)
      ((value_text _).trans (value_parts_integer n))
  | real x =>
    exact .real x (isNumber_text _) (fun h => not_isWhole_text x h.1) (isNearest_text x)

/-- A number is what its text is read as, and nothing else is. -/
theorem readAs_text_iff {number : JsonNumber} {q : ℚ} :
    NumberText.ReadAs number.text q ↔ q = number.value :=
  ⟨fun h => h.unique number.readAs_text, fun h => h ▸ number.readAs_text⟩

/-- So `0.1` is not read as one tenth, but as the number that is nearest to it. -/
example : (real ⟨false, 0x1999999999999A, -56, by decide, by decide, by decide,
    .inr (by decide)⟩).text = "0.1" := by
  decide +kernel

end JsonNumber

end LintTypes
