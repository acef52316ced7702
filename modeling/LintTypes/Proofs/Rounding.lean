import LintTypes.Numeral.Shortest
import Mathlib.Algebra.Order.Field.Power
import Mathlib.Tactic.Linarith
import Mathlib.Tactic.Ring

/-!
# Rounding to binary numbers

Which binary64 number is nearest to a ratio, said against all numbers of the format
(`Binary64.IsNearest`). What decides it is the distance of a number to its neighbours: the next
greater one is a whole unit of the last place away, and the next smaller one too, unless the number
is a power of two, where it is half of that. So a ratio has a number as its nearest one if it lies
in the interval that ends half-way to the neighbours, which `Binary64.interval` holds. There is at
most one such number, since of two neighbours one has an odd significand.
-/

namespace LintTypes.Binary64

/-! ## Values -/

/-- The number without its sign. -/
def magnitude (x : Binary64) : ℚ := x.significand * (2 : ℚ) ^ x.exponent

/-- The number itself. -/
def value (x : Binary64) : ℚ := if x.negative then -x.magnitude else x.magnitude

/-- The ratios from here on are beyond the greatest number: it lies half a unit of its last place
below. -/
def overflow : ℚ := (2 * (2 * minNormal) - 1 : ℕ) * (2 : ℚ) ^ (maxExponent - 1)

/-- The ratio is rounded to `x`: no number of the format is nearer, and if another one is as near,
the significand of `x` is even. -/
structure IsNearest (x : Binary64) (q : ℚ) : Prop where
  /-- The ratio is not beyond the greatest number. -/
  inRange : |q| < overflow
  /-- No other number is nearer. -/
  nearest : ∀ y : Binary64, |q - x.value| ≤ |q - y.value|
  /-- A tie goes to the even significand. -/
  even : ∀ y : Binary64, y.value ≠ x.value → |q - x.value| = |q - y.value| →
    x.significand % 2 = 0

theorem magnitude_nonneg (x : Binary64) : 0 ≤ x.magnitude := by
  unfold magnitude
  positivity

theorem abs_value (x : Binary64) : |x.value| = x.magnitude := by
  unfold value
  split
  · rw [abs_neg, abs_of_nonneg x.magnitude_nonneg]
  · exact abs_of_nonneg x.magnitude_nonneg

theorem value_of_pos (x : Binary64) (h : 0 < x.value) : x.value = x.magnitude := by
  rw [← abs_value, abs_of_pos h]

@[simp] theorem value_neg (x : Binary64) : x.neg.value = -x.value := by
  obtain ⟨negative, _, _, _, _, _, _⟩ := x
  cases negative <;> simp [neg, value, magnitude]

/-- What is nearest does not depend on the sign. -/
theorem IsNearest.neg {x : Binary64} {q : ℚ} (h : x.IsNearest q) : x.neg.IsNearest (-q) := by
  have hflip : ∀ y : Binary64, |-q - y.value| = |q - y.neg.value| := fun y => by
    rw [value_neg, sub_neg_eq_add, ← abs_neg, neg_sub, sub_neg_eq_add, add_comm]
  have hback : ∀ y : Binary64, y.neg.neg.value = y.value := fun y => by simp
  constructor
  case inRange => rw [abs_neg]; exact h.inRange
  case nearest =>
    intro y
    rw [hflip, hflip, hback]
    exact h.nearest y.neg
  case even =>
    intro y hne htie
    rw [hflip, hflip, hback] at htie
    exact h.even y.neg (fun heq => hne (by simp [← heq])) htie

/-! ## Neighbours -/

section Neighbours

variable {x y : Binary64}

theorem two_zpow_pos (n : ℤ) : (0 : ℚ) < 2 ^ n := zpow_pos (by norm_num) n

/-- A power of two is two of the one below. -/
theorem two_zpow_eq {m n : ℤ} (h : n = m + 1) : (2 : ℚ) ^ n = 2 * 2 ^ m := by
  rw [h, zpow_add_one₀ (by norm_num), mul_comm]

/-- A number with a greater exponent is a multiple of the unit of the last place. -/
theorem exists_magnitude_eq (h : x.exponent ≤ y.exponent) :
    ∃ n : ℕ, y.magnitude = n * (2 : ℚ) ^ x.exponent := by
  obtain ⟨shift, hshift⟩ := Int.le.dest h
  refine ⟨y.significand * 2 ^ shift, ?_⟩
  rw [magnitude, ← hshift, zpow_add₀ (by norm_num), zpow_natCast]
  push_cast
  ring

/-- A number with a smaller exponent is smaller than all numbers whose first bit is there. -/
theorem magnitude_lt (h : y.exponent < x.exponent) :
    y.magnitude + (2 : ℚ) ^ (x.exponent - 1) ≤ minNormal * (2 : ℚ) ^ x.exponent ∧
      minNormal ≤ x.significand := by
  have hfull : minNormal ≤ x.significand :=
    x.normal.resolve_left (ne_of_gt (lt_of_le_of_lt y.minExponent_le h))
  refine ⟨?_, hfull⟩
  have hdigits : (y.significand : ℚ) + 1 ≤ 2 * minNormal := by exact_mod_cast y.significand_lt
  have hunit : (2 : ℚ) ^ y.exponent ≤ 2 ^ (x.exponent - 1) :=
    zpow_le_zpow_right₀ (by norm_num) (by omega)
  have hdouble : (2 : ℚ) ^ x.exponent = 2 * 2 ^ (x.exponent - 1) :=
    two_zpow_eq (sub_add_cancel ..).symm
  calc y.magnitude + (2 : ℚ) ^ (x.exponent - 1)
      ≤ y.significand * 2 ^ (x.exponent - 1) + 2 ^ (x.exponent - 1) := by
        unfold magnitude
        gcongr
    _ = (y.significand + 1) * (2 : ℚ) ^ (x.exponent - 1) := by ring
    _ ≤ (2 * minNormal) * (2 : ℚ) ^ (x.exponent - 1) := by
        gcongr
    _ = minNormal * (2 : ℚ) ^ x.exponent := by rw [hdouble]; ring

/-- A number with a smaller exponent is smaller. -/
theorem magnitude_lt_magnitude (h : y.exponent < x.exponent) : y.magnitude < x.magnitude := by
  obtain ⟨hless, hfull⟩ := magnitude_lt h
  have hhalf := two_zpow_pos (x.exponent - 1)
  have hmin : (minNormal : ℚ) * 2 ^ x.exponent ≤ x.magnitude := by
    unfold magnitude
    gcongr
  linarith

/-- Numbers of one size have the same digits. -/
theorem significand_eq (h : x.magnitude = y.magnitude) : x.significand = y.significand := by
  rcases lt_trichotomy x.exponent y.exponent with hlt | heq | hgt
  · exact absurd h (magnitude_lt_magnitude hlt).ne
  · rw [magnitude, magnitude, heq] at h
    exact_mod_cast mul_right_cancel₀ (two_zpow_pos y.exponent).ne' h
  · exact absurd h (magnitude_lt_magnitude hgt).ne'

/-- The next greater number is one unit of the last place away. -/
theorem gap_above (h : x.magnitude < y.magnitude) :
    x.magnitude + (2 : ℚ) ^ x.exponent ≤ y.magnitude := by
  have hunit := two_zpow_pos x.exponent
  rcases le_or_gt x.exponent y.exponent with hle | hlt
  · obtain ⟨n, hn⟩ := exists_magnitude_eq hle
    rw [hn, magnitude] at h ⊢
    have hdigits : x.significand + 1 ≤ n := by
      exact_mod_cast lt_of_mul_lt_mul_right h hunit.le
    calc (x.significand : ℚ) * 2 ^ x.exponent + 2 ^ x.exponent
        = (x.significand + 1 : ℕ) * (2 : ℚ) ^ x.exponent := by push_cast; ring
      _ ≤ n * (2 : ℚ) ^ x.exponent := by gcongr
  · exact absurd h (magnitude_lt_magnitude hlt).not_gt

/-- The unit of the last place, or half of it for a power of two: how far the next smaller number is
away. -/
def gapBelow (x : Binary64) : ℚ :=
  if x.significand = minNormal ∧ minExponent < x.exponent then 2 ^ (x.exponent - 1)
  else 2 ^ x.exponent

theorem gapBelow_pos (x : Binary64) : 0 < x.gapBelow := by
  unfold gapBelow
  split <;> exact two_zpow_pos _

theorem gapBelow_le_unit (x : Binary64) : x.gapBelow ≤ 2 ^ x.exponent := by
  unfold gapBelow
  split
  · exact zpow_le_zpow_right₀ (by norm_num) (by omega)
  · exact le_rfl

/-- No number lies in the gap. -/
theorem gap_below (h : y.magnitude < x.magnitude) : y.magnitude + x.gapBelow ≤ x.magnitude := by
  rcases le_or_gt x.exponent y.exponent with hle | hlt
  · have hunit : x.gapBelow ≤ 2 ^ y.exponent :=
      x.gapBelow_le_unit.trans (zpow_le_zpow_right₀ (by norm_num) hle)
    exact (add_le_add_right hunit y.magnitude).trans (gap_above h)
  · obtain ⟨hless, hfull⟩ := magnitude_lt hlt
    have hleast : minExponent < x.exponent := lt_of_le_of_lt y.minExponent_le hlt
    unfold gapBelow
    by_cases hpower : x.significand = minNormal
    · rw [if_pos ⟨hpower, hleast⟩, magnitude, magnitude, hpower]
      exact hless
    · rw [if_neg fun hboth => hpower hboth.1]
      have hmore : minNormal + 1 ≤ x.significand := by omega
      have hdigits : ((minNormal + 1 : ℕ) : ℚ) * 2 ^ x.exponent ≤ x.magnitude := by
        unfold magnitude
        gcongr
      push_cast at hdigits
      have hpos := two_zpow_pos (x.exponent - 1)
      linarith

end Neighbours

/-! ## Intervals -/

/-- The ratio lies in the interval of `x`, whose bounds count quarters of a unit of the last place.
The ends belong to it if the significand is even. -/
structure IsInside (x : Binary64) (q : ℚ) : Prop where
  /-- It is not below half-way to the next smaller number. -/
  low : x.interval.low * (2 : ℚ) ^ (x.exponent - 2) ≤ q
  /-- It is not above half-way to the next greater number. -/
  high : q ≤ x.interval.high * (2 : ℚ) ^ (x.exponent - 2)
  /-- Half-way, the significand decides. -/
  ends : q = x.interval.low * (2 : ℚ) ^ (x.exponent - 2) ∨
    q = x.interval.high * (2 : ℚ) ^ (x.exponent - 2) → x.significand % 2 = 0

/-- What is no farther than half-way to a neighbour is nearest to `v`, and half-way there if `w` is
as near. -/
theorem abs_sub_le_of_gap {q v w below above : ℚ} (hbelow : 0 < below) (habove : 0 < above)
    (hgap : w + below ≤ v ∨ v + above ≤ w) (hlow : v - below / 2 ≤ q) (hhigh : q ≤ v + above / 2) :
    |q - v| ≤ |q - w| ∧ (|q - v| = |q - w| → q = v - below / 2 ∨ q = v + above / 2) := by
  rcases hgap with hgap | hgap
  · have hfar : |q - w| = q - w := abs_of_nonneg (by linarith)
    rcases le_total q v with hle | hle
    · rw [abs_of_nonpos (by linarith : q - v ≤ 0), hfar]
      exact ⟨by linarith, fun htie => .inl (by linarith)⟩
    · rw [abs_of_nonneg (by linarith : 0 ≤ q - v), hfar]
      exact ⟨by linarith, fun htie => absurd htie (by linarith)⟩
  · have hfar : |q - w| = w - q := by rw [abs_of_nonpos (by linarith)]; ring
    rcases le_total q v with hle | hle
    · rw [abs_of_nonpos (by linarith : q - v ≤ 0), hfar]
      exact ⟨by linarith, fun htie => absurd htie (by linarith)⟩
    · rw [abs_of_nonneg (by linarith : 0 ≤ q - v), hfar]
      exact ⟨by linarith, fun htie => .inr (by linarith)⟩

section Intervals

variable {x y : Binary64} {q : ℚ}

/-- The unit of the last place and its half, in quarters of it. -/
theorem zpow_quarters (n : ℤ) :
    (2 : ℚ) ^ (n - 1) = 2 * 2 ^ (n - 2) ∧ (2 : ℚ) ^ n = 4 * 2 ^ (n - 2) := by
  have hhalf : (2 : ℚ) ^ (n - 1) = 2 * 2 ^ (n - 2) := two_zpow_eq (by ring)
  refine ⟨hhalf, ?_⟩
  rw [two_zpow_eq (sub_add_cancel n 1).symm, hhalf]
  ring

/-- The upper bound lies half-way to the next greater number, -/
theorem interval_high (x : Binary64) :
    (x.interval.high : ℚ) * 2 ^ (x.exponent - 2) = x.magnitude + 2 ^ x.exponent / 2 := by
  rw [magnitude, (zpow_quarters x.exponent).2]
  simp only [interval]
  push_cast
  ring

/-- which is a whole number of halves of a unit; -/
theorem magnitude_add_half (x : Binary64) :
    x.magnitude + 2 ^ x.exponent / 2 =
      (2 * x.significand + 1 : ℕ) * (2 : ℚ) ^ (x.exponent - 1) := by
  rw [magnitude, two_zpow_eq (sub_add_cancel x.exponent 1).symm]
  push_cast
  ring

/-- and the lower one lies half-way to the next smaller number. -/
theorem interval_low (hx : x.significand ≠ 0) :
    (x.interval.low : ℚ) * 2 ^ (x.exponent - 2) = x.magnitude - x.gapBelow / 2 := by
  obtain ⟨hhalf, hwhole⟩ := zpow_quarters x.exponent
  rw [magnitude]
  simp only [interval, gapBelow]
  split
  · rw [Nat.cast_sub (by omega), hwhole, hhalf]
    push_cast
    ring
  · rw [Nat.cast_sub (by omega), hwhole]
    push_cast
    ring

/-- The gap ends above zero. -/
theorem gapBelow_le (hx : x.significand ≠ 0) : x.gapBelow ≤ x.magnitude := by
  have hone : (1 : ℚ) ≤ x.significand := by exact_mod_cast Nat.one_le_iff_ne_zero.2 hx
  exact x.gapBelow_le_unit.trans (le_mul_of_one_le_left (two_zpow_pos _).le hone)

/-- Any other number is at least as far from a positive one as its neighbours. -/
theorem value_apart (hx : x.significand ≠ 0) (hsign : x.negative = false)
    (hne : y.value ≠ x.value) :
    y.value + x.gapBelow ≤ x.value ∨ x.value + 2 ^ x.exponent ≤ y.value := by
  have hvalue : x.value = x.magnitude := by simp [value, hsign]
  rw [hvalue] at hne ⊢
  rcases lt_or_gt_of_ne hne with hlt | hgt
  · left
    by_cases hy : y.negative = true
    -- a negative number is as far below as zero
    · have hnegative : y.value = -y.magnitude := by simp [value, hy]
      have hsize := y.magnitude_nonneg
      have hgap := gapBelow_le hx
      linarith
    · have hmagnitude : y.value = y.magnitude := by simp [value, hy]
      rw [hmagnitude] at hlt ⊢
      exact gap_below hlt
  · right
    have hmagnitude := y.value_of_pos (lt_of_le_of_lt x.magnitude_nonneg hgt)
    rw [hmagnitude] at hgt ⊢
    exact gap_above hgt

/-- The intervals end where ratios are out of range. -/
theorem IsInside.lt_overflow (h : x.IsInside q) : q < overflow := by
  have hunit : (2 : ℚ) ^ (x.exponent - 1) ≤ 2 ^ (maxExponent - 1) :=
    zpow_le_zpow_right₀ (by norm_num) (Int.sub_le_sub_right x.le_maxExponent 1)
  have hends := h.ends
  have hto := h.high
  rw [interval_high, magnitude_add_half] at hends hto
  have hlt := x.significand_lt
  have hpos := two_zpow_pos (maxExponent - 1)
  unfold overflow
  -- the power itself is too great to be worked out
  generalize (2 : ℚ) ^ (maxExponent - 1) = greatest at hunit hpos ⊢
  rcases hto.lt_or_eq with hinside | hend
  · calc q < (2 * x.significand + 1 : ℕ) * (2 : ℚ) ^ (x.exponent - 1) := hinside
      _ ≤ (2 * (2 * minNormal) - 1 : ℕ) * greatest := by
        gcongr
        omega
  · -- the greatest number has an odd significand
    have heven := hends (.inr hend)
    have hodd : 2 * x.significand + 1 < 2 * (2 * minNormal) - 1 := by
      have hminNormal : minNormal % 2 = 0 := by decide
      omega
    calc q = (2 * x.significand + 1 : ℕ) * (2 : ℚ) ^ (x.exponent - 1) := hend
      _ ≤ (2 * x.significand + 1 : ℕ) * greatest := by gcongr
      _ < (2 * (2 * minNormal) - 1 : ℕ) * greatest := by gcongr

/-- A ratio in the interval of a positive number is rounded to it. -/
theorem IsInside.isNearest_of_positive (h : x.IsInside q) (hx : x.significand ≠ 0)
    (hsign : x.negative = false) : x.IsNearest q := by
  have hvalue : x.value = x.magnitude := by simp [value, hsign]
  have hrange := h.lt_overflow
  obtain ⟨hfrom, hto, hends⟩ := h
  rw [interval_low hx, ← hvalue] at hfrom hends
  rw [interval_high, ← hvalue] at hto hends
  have hcompared : ∀ y : Binary64, y.value ≠ x.value → |q - x.value| ≤ |q - y.value| ∧
      (|q - x.value| = |q - y.value| → q = x.value - x.gapBelow / 2 ∨
        q = x.value + 2 ^ x.exponent / 2) := fun y hne =>
    abs_sub_le_of_gap x.gapBelow_pos (two_zpow_pos _) (value_apart hx hsign hne) hfrom hto
  constructor
  case inRange =>
    have hgap := gapBelow_le hx
    have hpos := x.gapBelow_pos
    rw [abs_of_nonneg (by linarith)]
    exact hrange
  case nearest =>
    intro y
    by_cases hsame : y.value = x.value
    · rw [hsame]
    · exact (hcompared y hsame).1
  case even => exact fun y hne htie => hends ((hcompared y hne).2 htie)

/-- A ratio in the interval of a number is rounded to it, with its sign. -/
theorem IsInside.isNearest (h : x.IsInside q) (hx : x.significand ≠ 0) :
    x.IsNearest (if x.negative then -q else q) := by
  obtain ⟨negative, significand, exponent, hlt, hleast, hgreatest, hnormal⟩ := x
  have hpositive : IsNearest ⟨false, significand, exponent, hlt, hleast, hgreatest, hnormal⟩ q :=
    isNearest_of_positive ⟨h.low, h.high, h.ends⟩ hx rfl
  cases negative with
  | false => exact hpositive
  | true => exact hpositive.neg

theorem isNearest_zero (hx : x.significand = 0) : x.IsNearest 0 := by
  have hvalue : x.value = 0 := by simp [value, magnitude, hx]
  constructor
  case inRange =>
    rw [abs_zero, overflow]
    exact mul_pos (by exact_mod_cast (by decide)) (two_zpow_pos _)
  case nearest =>
    intro y
    rw [hvalue, sub_zero, abs_zero]
    exact abs_nonneg _
  case even => exact fun _ _ _ => by rw [hx]

end Intervals

/-! ## One nearest number -/

section Uniqueness

variable {x y : Binary64} {q : ℚ}

/-- Between two numbers whose digits end evenly there is another one: that behind the first. -/
theorem exists_between_of_nonneg (hpos : 0 ≤ x.value) (h : x.value < y.value)
    (hx : x.significand % 2 = 0) (hy : y.significand % 2 = 0) :
    ∃ z : Binary64, x.value < z.value ∧ z.value < y.value := by
  have heven : minNormal % 2 = 0 := by decide
  have hlt := x.significand_lt
  let next : Binary64 := ⟨false, x.significand + 1, x.exponent, by omega, x.minExponent_le,
    x.le_maxExponent, x.normal.imp_right (by omega)⟩
  have hunit := two_zpow_pos x.exponent
  have hfrom : x.value = x.magnitude := by rw [← abs_value, abs_of_nonneg hpos]
  have hto : y.value = y.magnitude := y.value_of_pos (lt_of_le_of_lt hpos h)
  have hnext : next.magnitude = x.magnitude + 2 ^ x.exponent := by
    simp only [next, magnitude]
    push_cast
    ring
  rw [hfrom, hto] at h
  have hle : next.magnitude ≤ y.magnitude := hnext ▸ gap_above h
  have hne : next.magnitude ≠ y.magnitude := fun heq => by
    have hdigits : x.significand + 1 = y.significand := significand_eq heq
    omega
  refine ⟨next, ?_, ?_⟩
  · rw [hfrom]
    exact lt_of_lt_of_eq (lt_add_of_pos_right _ hunit) hnext.symm
  · rw [hto]
    exact lt_of_le_of_ne hle hne

/-- This is so on both sides of zero. -/
theorem exists_between (h : x.value < y.value) (hx : x.significand % 2 = 0)
    (hy : y.significand % 2 = 0) : ∃ z : Binary64, x.value < z.value ∧ z.value < y.value := by
  rcases le_or_gt 0 x.value with hpos | hneg
  · exact exists_between_of_nonneg hpos h hx hy
  rcases lt_or_ge 0 y.value with hpos | hnonpos
  · have hzero : zero.value = 0 := by simp [zero, value, magnitude]
    exact ⟨zero, by rwa [hzero], by rwa [hzero]⟩
  · obtain ⟨z, hlow, hhigh⟩ := exists_between_of_nonneg (x := y.neg) (y := x.neg)
      (by simpa using hnonpos) (by simpa using h) hy hx
    rw [value_neg] at hlow hhigh
    exact ⟨z.neg, by rw [value_neg]; linarith, by rw [value_neg]; linarith⟩

/-- A ratio is rounded to one number only. -/
theorem IsNearest.value_eq (hx : x.IsNearest q) (hy : y.IsNearest q) : x.value = y.value := by
  by_contra hne
  wlog h : x.value < y.value generalizing x y
  · exact this hy hx (Ne.symm hne) (lt_of_le_of_ne (not_lt.1 h) (Ne.symm hne))
  have htie : |q - x.value| = |q - y.value| := le_antisymm (hx.nearest y) (hy.nearest x)
  obtain ⟨z, hlow, hhigh⟩ :=
    exists_between h (hx.even y (Ne.symm hne) htie) (hy.even x hne htie.symm)
  -- The ratio lies half-way between the two, and so nearer to what is between them.
  have hmiddle : q - x.value = y.value - q := by
    rcases abs_eq_abs.1 htie with hsame | hopposite <;> linarith
  have hnearer : |q - z.value| < |q - x.value| := by
    rw [abs_of_pos (by linarith : 0 < q - x.value), abs_lt]
    constructor <;> linarith
  exact absurd (hx.nearest z) (not_le.2 hnearer)

end Uniqueness

end LintTypes.Binary64
