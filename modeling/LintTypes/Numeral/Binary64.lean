/-!
# Binary floating-point numbers

The finite numbers of the binary64 format, as exact integers: a sign and `significand * 2 ^
exponent` with a significand below `2 ^ 53`. The least exponent is -1074; unless the exponent is the
least, the significand is at least `2 ^ 52`, so that each number has one form (zero has one per
sign).

`Binary64.ofRatio?` rounds a ratio of natural numbers to the nearest number of the format, ties to
the even significand. That its result has the form of a number rests on one fact about the estimate
of the logarithm, `ratioLog2_spec`. Products and quotients are exact ratios rounded in this way.
-/

namespace LintTypes

namespace Binary64

/-- The least exponent. -/
def minExponent : Int := -1074

/-- The greatest exponent. -/
def maxExponent : Int := 971

/-- The significands of normal numbers start here and end before its double. -/
def minNormal : Nat := Nat.pow 2 52

end Binary64

/-- A finite binary64 number: `significand * 2 ^ exponent`, negated if `negative`. -/
structure Binary64 where
  /-- The sign. -/
  negative : Bool
  /-- The digits, as a natural number of at most 53 bits. -/
  significand : Nat
  /-- The power of two that the digits are scaled by. -/
  exponent : Int
  /-- The digits fit. -/
  significand_lt : significand < 2 * Binary64.minNormal
  /-- Smaller powers of two are out of range. -/
  minExponent_le : Binary64.minExponent ≤ exponent
  /-- Greater powers of two are out of range. -/
  le_maxExponent : exponent ≤ Binary64.maxExponent
  /-- Each number has one form: only under the least power of two the first bit may be missing. -/
  normal : exponent = Binary64.minExponent ∨ Binary64.minNormal ≤ significand
deriving DecidableEq, Repr

namespace Binary64

/-- Zero without a sign. -/
def zero : Binary64 := ⟨false, 0, minExponent, by decide, by decide, by decide, .inl rfl⟩

instance : Inhabited Binary64 := ⟨zero⟩

/-- The same number with the other sign. -/
def neg (x : Binary64) : Binary64 := { x with negative := !x.negative }

/-! ## Ratios -/

/-- `num / den` rounded to the nearest natural number, ties to the even one. -/
def divNearest (num den : Nat) : Nat :=
  let quotient := num / den
  let twice := 2 * (num % den)
  if den < twice ∨ (twice = den ∧ quotient % 2 = 1) then quotient + 1 else quotient

/-- The ratio `num / den * 2 ^ power`, as a numerator and a denominator. -/
def scale (num den : Nat) (power : Int) : Nat × Nat :=
  (num * Nat.pow 2 power.toNat, den * Nat.pow 2 (-power).toNat)

/-- The greatest power of two that is at most `num / den`, for positive numbers. -/
def ratioLog2 (num den : Nat) : Int :=
  let estimate : Int := (num.log2 : Int) - den.log2
  let (n, d) := scale num den (-estimate)
  if d ≤ n then estimate else estimate - 1

/-- `2 ^ power` is at most `num / den`. -/
def PowLe (num den : Nat) (power : Int) : Prop :=
  (scale num den (-power)).2 ≤ (scale num den (-power)).1

theorem powLe_iff {num den front back : Nat} {power : Int} (h : (back : Int) = front + power) :
    PowLe num den power ↔ den * Nat.pow 2 back ≤ num * Nat.pow 2 front := by
  -- both sides say the same of multiples by powers of two
  have hcross : ∀ {a b a' b' : Nat}, a + b' = a' + b → den * Nat.pow 2 b ≤ num * Nat.pow 2 a →
      den * Nat.pow 2 b' ≤ num * Nat.pow 2 a' := by
    intro a b a' b' hab hle
    have hpow : ∀ i j : Nat, Nat.pow 2 (i + j) = Nat.pow 2 i * Nat.pow 2 j := Nat.pow_add 2
    have hscaled := Nat.mul_le_mul_right (Nat.pow 2 a') hle
    rw [Nat.mul_assoc, ← hpow, Nat.add_comm b, ← hab, hpow, Nat.mul_right_comm num,
      Nat.mul_left_comm, Nat.mul_comm (Nat.pow 2 a)] at hscaled
    exact Nat.le_of_mul_le_mul_right hscaled (Nat.pow_pos (by decide))
  constructor
  · exact hcross (by omega)
  · exact hcross (by omega)

/-- The logarithm of a ratio is rounded down. -/
theorem ratioLog2_spec {num den : Nat} (hnum : num ≠ 0) (hden : den ≠ 0) :
    PowLe num den (ratioLog2 num den) ∧ ¬PowLe num den (ratioLog2 num den + 1) := by
  have hnumLe : Nat.pow 2 num.log2 ≤ num := Nat.log2_self_le hnum
  have hdenLe : Nat.pow 2 den.log2 ≤ den := Nat.log2_self_le hden
  have hnumLt : num < Nat.pow 2 (num.log2 + 1) := Nat.lt_log2_self
  have hdenLt : den < Nat.pow 2 (den.log2 + 1) := Nat.lt_log2_self
  have hlow : PowLe num den ((num.log2 : Int) - den.log2 - 1) := by
    refine (powLe_iff (show (num.log2 : Int) = (den.log2 + 1 : Nat) + _ by omega)).2 ?_
    rw [Nat.mul_comm]
    exact Nat.mul_le_mul hnumLe (Nat.le_of_lt hdenLt)
  have hhigh : ¬PowLe num den ((num.log2 : Int) - den.log2 + 1) := by
    rw [powLe_iff (show ((num.log2 + 1 : Nat) : Int) = den.log2 + _ by omega), Nat.not_le,
      Nat.mul_comm den]
    exact Nat.lt_of_lt_of_le (Nat.mul_lt_mul_of_pos_right hnumLt (Nat.pow_pos (by decide)))
      (Nat.mul_le_mul_left _ hdenLe)
  unfold ratioLog2
  by_cases h : PowLe num den ((num.log2 : Int) - den.log2)
  · have hle := h
    unfold PowLe at hle
    simp only [hle, if_true]
    exact ⟨h, hhigh⟩
  · have hlt := h
    unfold PowLe at hlt
    simp only [hlt, if_false]
    refine ⟨hlow, ?_⟩
    rwa [Int.sub_add_cancel]

/-- As multiples of one more power of two. -/
theorem powLe_add_iff {num den : Nat} {power : Int} (bits : Nat) :
    PowLe num den (power + bits) ↔
      Nat.pow 2 bits * (scale num den (-power)).2 ≤ (scale num den (-power)).1 := by
  have hback : ((power.toNat + bits : Nat) : Int) = (-power).toNat + (power + bits) := by omega
  rw [powLe_iff hback, show Nat.pow 2 (power.toNat + bits) = _ from Nat.pow_add ..,
    ← Nat.mul_assoc, Nat.mul_comm]
  simp only [scale, Int.neg_neg]
  exact Iff.rfl

theorem PowLe.mono {num den : Nat} {power power' : Int} (h : PowLe num den power')
    (hle : power ≤ power') : PowLe num den power := by
  obtain ⟨bits, rfl⟩ := Int.le.dest hle
  exact Nat.le_trans (Nat.le_mul_of_pos_left _ (Nat.pow_pos (by decide)))
    ((powLe_add_iff bits).1 h)

theorem divNearest_le {num den bound : Nat} (h : num < bound * den) :
    divNearest num den ≤ bound := by
  have hlt : num / den < bound := Nat.div_lt_of_lt_mul (by rwa [Nat.mul_comm])
  unfold divNearest
  dsimp only
  split <;> omega

theorem le_divNearest {num den bound : Nat} (hden : 0 < den) (h : bound * den ≤ num) :
    bound ≤ divNearest num den := by
  have hle : bound ≤ num / den := (Nat.le_div_iff_mul_le hden).2 h
  unfold divNearest
  dsimp only
  split <;> omega

/-! ## Rounding -/

/-- The power of two that the digits of `num / den` are scaled by: the least one that leaves no more
than 53 of them in front of the point. -/
def ratioExponent (num den : Nat) : Int := max minExponent (ratioLog2 num den - 52)

/-- The digits of `num / den` under that power of two, rounded. -/
def ratioSignificand (num den : Nat) : Nat :=
  let (n, d) := scale num den (-ratioExponent num den)
  divNearest n d

/-- Rounding may carry into one more bit, but not beyond. -/
theorem ratioSignificand_le {num den : Nat} (hnum : num ≠ 0) (hden : den ≠ 0) :
    ratioSignificand num den ≤ 2 * minNormal := by
  have hover : ¬PowLe num den (ratioExponent num den + (53 : Nat)) := fun h =>
    (ratioLog2_spec hnum hden).2 (h.mono (by unfold ratioExponent; omega))
  rw [powLe_add_iff, Nat.not_le] at hover
  exact divNearest_le hover

/-- Unless the power is the least one, there are 53 digits. -/
theorem le_ratioSignificand {num den : Nat} (hnum : num ≠ 0) (hden : den ≠ 0) :
    ratioExponent num den = minExponent ∨ minNormal ≤ ratioSignificand num den := by
  refine Classical.or_iff_not_imp_left.2 fun hleast => ?_
  have hexponent : ratioExponent num den + (52 : Nat) = ratioLog2 num den := by
    unfold ratioExponent at hleast ⊢
    omega
  have hfull := (ratioLog2_spec hnum hden).1
  rw [← hexponent, powLe_add_iff] at hfull
  exact le_divNearest (Nat.mul_pos (Nat.pos_of_ne_zero hden) (Nat.pow_pos (by decide))) hfull

/-- The number nearest to `num / den`, ties to the even significand; nothing if that is beyond the
greatest number, or no ratio. -/
def ofRatio? (num den : Nat) : Option Binary64 :=
  if hnum : num = 0 then some zero
  else if hden : den = 0 then none
  else
    let exponent := ratioExponent num den
    let significand := ratioSignificand num den
    if hcarry : significand = 2 * minNormal then
      if hgreatest : exponent + 1 ≤ maxExponent then
        some ⟨false, minNormal, exponent + 1, by decide,
          Int.le_trans (Int.le_max_left ..) (Int.le_add_one (Int.le_refl _)), hgreatest,
          .inr (Nat.le_refl _)⟩
      else none
    else if hgreatest : exponent ≤ maxExponent then
      some ⟨false, significand, exponent,
        Nat.lt_of_le_of_ne (ratioSignificand_le hnum hden) hcarry, Int.le_max_left .., hgreatest,
        le_ratioSignificand hnum hden⟩
    else none

/-- The product of the absolute values, rounded. -/
def mul? (x y : Binary64) : Option Binary64 :=
  let (num, den) := scale (x.significand * y.significand) 1 (x.exponent + y.exponent)
  ofRatio? num den

/-- The quotient of the absolute values, rounded; the divisor must not be zero. -/
def div? (x y : Binary64) : Option Binary64 :=
  let (num, den) := scale x.significand y.significand (x.exponent - y.exponent)
  ofRatio? num den

/-- The number nearest to `10 ^ power`, for powers that the format can hold. -/
def powerOfTen? (power : Nat) : Option Binary64 := ofRatio? (Nat.pow 10 power) 1

/-- The greatest power of ten that a decimal is scaled by at once. -/
def maxPower : Nat := 308

/-- `x / 10 ^ power`, by steps of at most `10 ^ 308`, each of them rounded. -/
def scaleDown? (x : Binary64) (power : Nat) : Option Binary64 :=
  if x.significand = 0 then some x
  else if power ≤ maxPower then do x.div? (← powerOfTen? power)
  else do
    let reduced ← x.div? (← powerOfTen? maxPower)
    scaleDown? reduced (power - maxPower)
termination_by power
decreasing_by simp_all [maxPower]; omega

/-- The number that the decimal `significand * 10 ^ exponent` is read as: the significand is rounded
and then scaled by a rounded power of ten. Nothing if the result is beyond the greatest number. -/
def ofDecimal? (significand : Nat) (exponent : Int) : Option Binary64 := do
  let x ← ofRatio? significand 1
  if exponent < 0 then x.scaleDown? exponent.natAbs
  else if exponent.natAbs ≤ maxPower then x.mul? (← powerOfTen? exponent.natAbs)
  else if x.significand = 0 then some x
  else none

end Binary64

end LintTypes
