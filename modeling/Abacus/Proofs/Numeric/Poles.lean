import Abacus.Proofs.Numeric.Powers
import Abacus.Proofs.Numeric.Rounding

/-!
Poles of the tangent.

The test for a pole divides, takes the nearest integer, multiplies back and subtracts, and each step
is rounded. In degrees this does not matter: an odd multiple of 90 has an exact quotient, and if a
number passes the test, then the product that it is compared with has not been rounded, since it has
no more digits than the calculator's format. In radians the unit is itself rounded. There the errors
of all steps add up to less than the tolerance, and the rounded quotient of an angle near an odd
multiple is nearest to the odd number as long as that is not too large.
-/
namespace Abacus

namespace Decimal

theorem le_eq (x y : Decimal) : x.le y = decide (x.value ≤ y.value) := by
  rw [le, lt_eq, ← decide_not]
  simp only [not_lt]

theorem value_ofNat (n : Nat) : (ofNat n).value = n := by simp [value, ofNat, sign]

theorem value_zero : zero.value = 0 := value_of_isZero rfl

theorem nearestInteger_spec (x : Decimal) :
    ∃ k : ℤ, x.nearestInteger.value = k ∧ NearestEven x.value k := by
  obtain ⟨k, hvalue, hnearest⟩ := x.quantize_roundsTo 0
  rw [pow_zero, mul_one] at hnearest
  rw [pow_zero, div_one] at hvalue
  exact ⟨k, x.value_nearestInteger.trans hvalue, hnearest⟩

theorem nearestInteger_eq {x : Decimal} {n : Nat} (h : |x.value - n| < 1 / 2) :
    x.nearestInteger.value = n := by
  obtain ⟨k, hk, hnearest⟩ := x.nearestInteger_spec
  have hn : NearestEven x.value n := by
    rw [← Int.cast_natCast] at h
    exact ⟨h.le, fun htie => absurd htie h.ne⟩
  rw [hk, hnearest.unique hn, Int.cast_natCast]

end Decimal

namespace Numeric

open Format (calculator calculator_ample)

/-! ### The test, step by step -/

/-- The test for an odd multiple of a unit succeeds. -/
structure PoleTest (x unit tolerance : Decimal) (n : Nat) (c p r s m : Decimal) : Prop where
  quotient : x.abs.div calculator unit = some c
  nearest : c.nearestInteger.value = n
  product : c.nearestInteger.mul calculator unit = some p
  difference : x.abs.sub calculator p = some r
  relative : x.abs.mul calculator tolerance = some s
  limit : unit.mul calculator poleSlackLimit = some m
  short : n / 2 < 10 ^ 28
  odd : Odd n
  close : |r.value| ≤ s.value
  capped : |r.value| ≤ m.value

/-- Integers of at most 28 digits, and their multiples of ten. -/
theorem fits_whole (negative : Bool) {n : Nat} (hn : n < 10 ^ 28) {e : Int} (hleast : 0 ≤ e)
    (hgreatest : e ≤ 1) : calculator.Fits ⟨negative, n, e⟩ := by
  have hdigits := (digitCount_le_iff (show 0 < 28 by decide)).mpr hn
  refine Format.calculator_fits_iff.mpr ⟨hn, by simp only; omega, ?_⟩
  simp only [Decimal.adjusted]
  omega

theorem fits_ofNat {n : Nat} (hn : n < 10 ^ 28) : calculator.Fits (.ofNat n) :=
  fits_whole false hn (Int.le_refl 0) (by decide)

theorem wholeQuotient_two {q : Decimal} {n : Nat} (hq : |q.value| = n) :
    q.wholeQuotient (.ofNat 2) = n / 2 := by
  rw [Decimal.wholeQuotient_eq, hq, Decimal.value_ofNat, Nat.abs_cast,
    Rat.natFloor_natCast_div_natCast]

theorem rem_two {q : Decimal} {n : Nat} (hq : |q.value| = n) :
    ∃ o, q.rem calculator (.ofNat 2) = some o ∧
      o.value = Decimal.sign q.negative * (n % 2 : Nat) := by
  have hrest : (q.exactRest (.ofNat 2)).value = Decimal.sign q.negative * (n % 2 : Nat) := by
    have hdivision : (n : ℚ) = 2 * (n / 2 : Nat) + (n % 2 : Nat) := by
      exact_mod_cast (Nat.div_add_mod n 2).symm
    rw [Decimal.value_exactRest, wholeQuotient_two hq, hq, Decimal.value_ofNat, Nat.abs_cast]
    congr 1
    push_cast
    linarith
  have hvalue : Decimal.value ⟨q.negative, n % 2, 0⟩
      = Decimal.sign q.negative * (n % 2 : Nat) := by simp [Decimal.value]
  rw [← hvalue] at hrest ⊢
  exact Format.round_exact (fits_whole q.negative (by omega) (by decide) (by decide)) hrest

/-- The remainder of an integer by two is one exactly if the integer is odd and positive. -/
theorem rem_two_eqv_one {q o : Decimal} {n : Nat} (hq : |q.value| = n)
    (ho : q.rem calculator (.ofNat 2) = some o) :
    o.eqv .one = true ↔ q.value = n ∧ Odd n := by
  obtain ⟨o', ho', hvalue⟩ := rem_two hq
  obtain rfl : o' = o := Option.some.inj (ho'.symm.trans ho)
  have hone : Decimal.one.value = 1 := by simp [Decimal.value, Decimal.one, Decimal.sign]
  rw [Decimal.eqv_eq, decide_eq_true_iff, hvalue, hone, q.value_eq_sign_mul, hq, Nat.odd_iff]
  rcases Nat.mod_two_eq_zero_or_one n with heven | hodd
  · simp [heven]
  · have hne : n ≠ 0 := by omega
    cases q.negative with
    | false => simp [hodd, Decimal.sign]
    | true =>
      have hsign : (-1 : ℚ) ≠ 1 := by norm_num
      simp [hodd, Decimal.sign, hne, hsign]

/-- A distance is within the slack if it is within both bounds. -/
theorem le_slack_iff (r s m : Decimal) :
    r.abs.le (if m.lt s then m else s) = true ↔ |r.value| ≤ s.value ∧ |r.value| ≤ m.value := by
  rw [Decimal.lt_eq, Decimal.le_eq, decide_eq_true_iff, Decimal.value_abs]
  by_cases hlt : m.value < s.value
  · rw [if_pos (decide_eq_true hlt)]
    exact ⟨fun h => ⟨h.trans hlt.le, h⟩, And.right⟩
  · rw [if_neg (by simpa using hlt)]
    exact ⟨fun h => ⟨h, h.trans (not_lt.mp hlt)⟩, And.left⟩

/-- What the test does, with the remainder by two as a statement on the quotient. -/
theorem isOddMultiple_iff (x unit tolerance : Decimal) :
    isOddMultiple x unit tolerance = true
      ↔ ∃ n c p r s m, PoleTest x unit tolerance n c p r s m := by
  have hsome : isOddMultiple x unit tolerance = true
      ↔ isOddMultiple? x unit tolerance = some true := by
    rw [isOddMultiple]
    cases isOddMultiple? x unit tolerance <;> simp
  have hshort : ∀ k : Nat, calculator.digits < digitCount k ↔ ¬k < 10 ^ 28 := fun k => by
    rw [← digitCount_le_iff (by decide), Nat.not_le]
    rfl
  rw [hsome, isOddMultiple?]
  simp only [Option.bind_eq_bind, Option.bind_eq_some_iff, Option.pure_def, hshort]
  constructor
  · rintro ⟨c, hc, p, hp, r, hr, s, hs, m, hm, htest⟩
    obtain ⟨k, hk, -⟩ := c.nearestInteger_spec
    have habs : |c.nearestInteger.value| = (k.natAbs : Nat) := by
      rw [hk, Nat.cast_natAbs, Int.cast_abs]
    rw [wholeQuotient_two habs] at htest
    split at htest
    · cases htest
    next hlength =>
    obtain ⟨o, ho, htest⟩ := Option.bind_eq_some_iff.mp htest
    rw [Option.some.injEq, Bool.and_eq_true, rem_two_eqv_one habs ho, le_slack_iff] at htest
    obtain ⟨⟨hvalue, hodd⟩, hclose, hcapped⟩ := htest
    exact ⟨k.natAbs, c, p, r, s, m, hc, hvalue, hp, hr, hs, hm, not_not.mp hlength, hodd, hclose,
      hcapped⟩
  · rintro ⟨n, c, p, r, s, m, h⟩
    have habs : |c.nearestInteger.value| = n := by rw [h.nearest, Nat.abs_cast]
    obtain ⟨o, ho, -⟩ := rem_two habs
    refine ⟨c, h.quotient, p, h.product, r, h.difference, s, h.relative, m, h.limit, ?_⟩
    rw [wholeQuotient_two habs, if_neg (not_not.mpr h.short), ho, Option.bind_some,
      Option.some.injEq, Bool.and_eq_true, rem_two_eqv_one habs ho, le_slack_iff]
    exact ⟨⟨h.nearest, h.odd⟩, h.close, h.capped⟩

theorem fits_decimalZero : calculator.Fits .zero := fits_ofBool false

/-- Without a tolerance there is no slack. -/
theorem mul_zero_exact (x : Decimal) : ∃ s, x.mul calculator .zero = some s ∧ s.value = 0 := by
  obtain ⟨s, hs, hvalue⟩ := Decimal.mul_exact (x := x) (y := .zero) fits_decimalZero
    (by rw [Decimal.value_zero, mul_zero])
  exact ⟨s, hs, hvalue.trans Decimal.value_zero⟩

theorem value_poleTolerance : poleTolerance.value = 1 / 10 ^ 26 := by
  norm_num [Decimal.value, poleTolerance, Decimal.sign]

theorem value_poleSlackLimit : poleSlackLimit.value = 1 / 10 ^ 12 := by
  norm_num [Decimal.value, poleSlackLimit, Decimal.sign]

/-! ### The error of one step -/

/-- `w` is `v`, up to the error of one rounding. -/
def Near (v w : ℚ) : Prop := |w - v| ≤ |v| / (2 * 10 ^ 27) + 1 / (2 * 10 ^ 55)

theorem near_of_rounded {v w : ℚ} (h : calculator.Rounded v w) : Near v w := by
  have herror := h.error_le
  have hdigits : (1 - calculator.digits : ℤ) = -27 := rfl
  have htiny : calculator.tiny = -55 := rfl
  rw [hdigits, htiny] at herror
  refine herror.trans_eq ?_
  norm_num
  ring

/-- A result that is below the threshold exists and is near to the exact one. -/
theorem exists_near {v : ℚ} {o : Option Decimal} (h : calculator.RoundsOnce v o)
    (hv : |v| < 10 ^ 29 - 5) : ∃ z, o = some z ∧ Near v z.value := by
  have hnone := h.none_iff
  rw [threshold_calculator] at hnone
  cases o with
  | none => exact absurd (hnone.mp rfl) (not_le.mpr hv)
  | some z => exact ⟨z, rfl, near_of_rounded (h.some_value z rfl)⟩

/-- Numbers of the calculator are multiples of the least one, so that no difference between them is
rounded to zero. -/
theorem eq_of_sub_eq_zero {x y r : Decimal} (hx : calculator.Fits x) (hy : calculator.Fits y)
    (hr : x.sub calculator y = some r) (hzero : r.value = 0) : x.value = y.value := by
  have hnear := near_of_rounded ((Decimal.sub_roundsOnce calculator_ample x y).some_value r hr)
  have hunit : (10 : ℚ) ^ (-55 : ℤ) = 1 / 10 ^ 55 := by norm_num
  rw [Near, hzero, zero_sub, abs_neg] at hnear
  have hsmall : |x.value - y.value| < 1 * 10 ^ (-55 : ℤ) := by
    rw [hunit]
    linarith
  rw [Decimal.value_signedAt (show -55 ≤ x.exponent from hx.least),
    Decimal.value_signedAt (show -55 ≤ y.exponent from hy.least)] at hsmall ⊢
  rw [← sub_mul, abs_mul, abs_of_pos (ten_zpow_pos _), mul_lt_mul_iff_left₀ (ten_zpow_pos _)]
    at hsmall
  have hless : |x.signedAt (-55) - y.signedAt (-55)| < 1 := by exact_mod_cast hsmall
  rw [Int.abs_lt_one_iff, sub_eq_zero] at hless
  rw [hless]

/-! ### Degrees -/

theorem value_ninety : (Decimal.ofNat 90).value = 90 := Decimal.value_ofNat 90

/-- The multiples of 90 in the range of the calculator have at most 28 digits before a zero. -/
theorem exists_multiple {n : ℤ} (hn : |90 * (n : ℚ)| < 10 ^ 29) :
    ∃ w, calculator.Fits w ∧ w.value = 90 * n := by
  have hdigits : (9 * n).natAbs < 10 ^ 28 := by
    have hcast : (((9 * n).natAbs : Nat) : ℚ) < (10 ^ 28 : Nat) := by
      rw [Nat.cast_natAbs, Int.cast_abs]
      rw [show 90 * (n : ℚ) = 10 * (9 * n) by ring, abs_mul, abs_of_pos (by norm_num)] at hn
      push_cast
      linarith
    exact_mod_cast hcast
  refine ⟨_, fits_whole (if 9 * n = 0 then false else decide (9 * n < 0)) hdigits (e := 1)
    (by decide) (by decide), ?_⟩
  rw [Decimal.value_ofSigned]
  push_cast
  ring

/-- What the test compares with is an exact multiple, since otherwise there would be no product. -/
theorem odd_multiple_of_test {d : Decimal} (hd : calculator.Fits d)
    (h : isOddMultiple d (.ofNat 90) .zero = true) : ∃ n : ℤ, Odd n ∧ d.value = 90 * n := by
  obtain ⟨n, c, p, r, s, m, h⟩ := (isOddMultiple_iff d _ _).mp h
  have hexact : c.nearestInteger.value * (Decimal.ofNat 90).value = 90 * (n : ℤ) := by
    rw [h.nearest, value_ninety, mul_comm, Int.cast_natCast]
  have hbelow : |90 * ((n : ℤ) : ℚ)| < 10 ^ 29 := by
    have hsome := (Decimal.mul_roundsOnce calculator_ample c.nearestInteger (.ofNat 90)).none_iff
    rw [h.product, hexact, threshold_calculator] at hsome
    have hlt := not_le.mp fun hle => by simpa using hsome.mpr hle
    linarith
  have hp : p.value = 90 * (n : ℤ) := by
    obtain ⟨w, hw, hwvalue⟩ := exists_multiple hbelow
    obtain ⟨z, hz, hzvalue⟩ := Decimal.mul_exact hw (hexact.trans hwvalue.symm)
    rw [Option.some.inj (h.product.symm.trans hz), hzvalue, hwvalue]
  have hr : r.value = 0 := by
    obtain ⟨z, hz, hzvalue⟩ := mul_zero_exact d.abs
    have hclose := h.close
    rw [Option.some.inj (h.relative.symm.trans hz), hzvalue] at hclose
    exact abs_nonpos_iff.mp hclose
  have hd : |d.value| = 90 * (n : ℤ) := by
    rw [← Decimal.value_abs, ← hp]
    exact eq_of_sub_eq_zero hd.abs (Format.settle_fits Format.calculator_proper h.product)
      h.difference hr
  have hodd : Odd (n : ℤ) := by exact_mod_cast h.odd
  rcases eq_or_eq_neg_of_abs_eq hd with hd | hd
  · exact ⟨n, hodd, hd⟩
  · exact ⟨-n, hodd.neg, by rw [hd, Int.cast_neg, mul_neg]⟩

/-- At an odd multiple no step is rounded. -/
theorem test_of_odd_multiple {d : Decimal} (hd : calculator.Fits d) {n : ℤ} (hn : Odd n)
    (h : d.value = 90 * n) : isOddMultiple d (.ofNat 90) .zero = true := by
  have hodd : Odd n.natAbs := hn.natAbs
  have habs : d.abs.value = 90 * (n.natAbs : Nat) := by
    rw [Decimal.value_abs, h, abs_mul, Nat.cast_natAbs, Int.cast_abs, abs_of_pos (by norm_num)]
  generalize n.natAbs = k at hodd habs
  have hk : k < 10 ^ 28 := by
    have hrange := hd.abs.abs_value_lt
    have hten : (10 : ℚ) ^ (calculator.maxExponent + 1) = 10 ^ 29 := by norm_num [calculator]
    rw [habs, abs_of_nonneg (by positivity), hten] at hrange
    have hcast : (k : ℚ) < (10 ^ 28 : Nat) := by
      push_cast
      linarith
    exact_mod_cast hcast
  have hquotient : d.abs.value / (Decimal.ofNat 90).value = (Decimal.ofNat k).value := by
    rw [habs, value_ninety, Decimal.value_ofNat, mul_div_cancel_left₀ _ (by norm_num)]
  obtain ⟨c, hc, hcvalue⟩ := Decimal.div_exact calculator_ample rfl (fits_ofNat hk) hquotient
  have hnearest : c.nearestInteger.value = k := by
    refine Decimal.nearestInteger_eq ?_
    rw [hcvalue, Decimal.value_ofNat, sub_self]
    norm_num
  obtain ⟨p, hp, hpvalue⟩ := Decimal.mul_exact (x := c.nearestInteger) (y := .ofNat 90) hd.abs
    (by rw [hnearest, value_ninety, habs, mul_comm])
  obtain ⟨r, hr, hrvalue⟩ := Decimal.sub_exact (x := d.abs) (y := p) fits_decimalZero
    (by rw [hpvalue, sub_self, Decimal.value_zero])
  obtain ⟨s, hs, hsvalue⟩ := mul_zero_exact d.abs
  have hlimit : (Decimal.ofNat 90).value * poleSlackLimit.value = 9 / 10 ^ 11 := by
    rw [value_ninety, value_poleSlackLimit]
    norm_num
  obtain ⟨m, hm, hmnear⟩ := exists_near
    (hlimit ▸ Decimal.mul_roundsOnce calculator_ample (.ofNat 90) poleSlackLimit) (by norm_num)
  rw [Decimal.value_zero] at hrvalue
  refine (isOddMultiple_iff _ _ _).mpr
    ⟨k, c, p, r, s, m, hc, hnearest, hp, hr, hs, hm, by omega, hodd, ?_, ?_⟩
  · rw [hrvalue, hsvalue, abs_zero]
  · rw [hrvalue, abs_zero]
    have := abs_le.mp hmnear
    norm_num at this
    linarith

/-- The test for poles in degrees is exact: it succeeds at the odd multiples of 90 and at no other
number of the calculator. So the tangent has an error there, up to the greatest number, and from the
test nowhere else. -/
theorem degree_poles_are_exact :
    (∀ d : Decimal, calculator.Fits d →
      (isOddMultiple d (.ofNat 90) .zero = true ↔ ∃ n : ℤ, Odd n ∧ d.value = 90 * n) ∧
      ((∃ n : ℤ, Odd n ∧ d.value = 90 * n) → tangentDegrees d = .error .math) ∧
      ((¬∃ n : ℤ, Odd n ∧ d.value = 90 * n) → tangentDegrees d = toRadians d >>= tangentOf)) ∧
    ∀ n : ℤ, Odd n → |90 * (n : ℚ)| < 10 ^ 29 →
      ∃ d, calculator.Fits d ∧ d.value = 90 * n ∧ tangentDegrees d = .error .math := by
  have htest : ∀ d : Decimal, calculator.Fits d →
      (isOddMultiple d (.ofNat 90) .zero = true ↔ ∃ n : ℤ, Odd n ∧ d.value = 90 * n) :=
    fun d hd => ⟨odd_multiple_of_test hd, fun ⟨n, hn, hvalue⟩ => test_of_odd_multiple hd hn hvalue⟩
  have hpole : ∀ d : Decimal, isOddMultiple d (.ofNat 90) .zero = true →
      tangentDegrees d = .error .math := fun d hd => if_pos hd
  refine ⟨fun d hd => ⟨htest d hd, fun hodd => hpole d ((htest d hd).mpr hodd), fun hodd => ?_⟩, ?_⟩
  · rw [← htest d hd] at hodd
    exact if_neg hodd
  · intro n hn hrange
    obtain ⟨d, hd, hvalue⟩ := exists_multiple hrange
    exact ⟨d, hd, hvalue, hpole d (test_of_odd_multiple hd hn hvalue)⟩

/-- The greatest number of the calculator is an odd multiple of 90. -/
theorem degree_poles_are_exact_at_greatest :
    let d : Decimal := ⟨true, 9999999999999999999999999999, 1⟩
    let n : ℤ := -1111111111111111111111111111
    calculator.Fits d ∧ Odd n ∧ d.value = 90 * n ∧ |90 * (n : ℚ)| < 10 ^ 29 ∧
      tangentDegrees d = .error .math ∧
      ∃ d', calculator.Fits d' ∧ d'.value = 90 * n ∧ tangentDegrees d' = .error .math := by
  intro d n
  have hd : calculator.Fits d := fits_whole true (by decide) (by decide) (by decide)
  have hn : Odd n := by decide
  have hvalue : d.value = 90 * n := by norm_num [d, n, Decimal.value, Decimal.sign]
  have hrange : |90 * (n : ℚ)| < 10 ^ 29 := by norm_num [n]
  obtain ⟨htest, hmultiples⟩ := degree_poles_are_exact
  exact ⟨hd, hn, hvalue, hrange, (htest d hd).2.1 ⟨n, hn, hvalue⟩, hmultiples n hn hrange⟩

/-! ### Radians -/

theorem value_pi : pi.value = 3141592653589793238462643383 / 10 ^ 27 := by
  norm_num [Decimal.value, pi, Decimal.sign]

/-- Half of π ends with a tie, which has been rounded up. -/
theorem value_halfPi : halfPi.value = 1570796326794896619231321692 / 10 ^ 27 := by
  have heq : halfPi = ⟨false, 1570796326794896619231321692, -27⟩ := by decide +kernel
  rw [heq]
  norm_num [Decimal.value, Decimal.sign]

theorem halfPi_ne_zero : halfPi.isZero = false := by decide +kernel

theorem Near.bounds {v w : ℚ} (h : Near v w) (hv : 0 ≤ v) :
    v - v / (2 * 10 ^ 27) - 1 / (2 * 10 ^ 55) ≤ w ∧
      w ≤ v + v / (2 * 10 ^ 27) + 1 / (2 * 10 ^ 55) := by
  rw [Near, abs_of_nonneg hv] at h
  obtain ⟨hlow, hhigh⟩ := abs_le.mp h
  constructor <;> linarith

theorem Near.abs_bounds {v w : ℚ} (h : Near v w) :
    |v| - |v| / (2 * 10 ^ 27) - 1 / (2 * 10 ^ 55) ≤ |w| ∧
      |w| ≤ |v| + |v| / (2 * 10 ^ 27) + 1 / (2 * 10 ^ 55) := by
  have habs : Near |v| |w| := by
    rw [Near, abs_abs]
    exact (abs_abs_sub_abs_le w v).trans h
  exact habs.bounds (abs_nonneg v)

/-- The test succeeds at least as far from an odd multiple as a few roundings lead. -/
theorem test_of_near {x : Decimal} {n : Nat} (hodd : Odd n) (hn : n ≤ 10 ^ 14)
    (h : |x.abs.value - n * halfPi.value| ≤ n * halfPi.value / (5 * 10 ^ 26)) :
    isOddMultiple x halfPi poleTolerance = true := by
  have hleast : (1 : ℚ) ≤ n := by exact_mod_cast hodd.pos
  have hgreatest : (n : ℚ) ≤ 10 ^ 14 := by exact_mod_cast hn
  have hunit : (0 : ℚ) < halfPi.value := by norm_num [value_halfPi]
  have hquotient : |x.abs.value / halfPi.value - n| ≤ n / (5 * 10 ^ 26) := by
    rw [div_sub' hunit.ne', abs_div, abs_of_pos hunit, div_le_iff₀ hunit, mul_comm halfPi.value]
    exact h.trans_eq (by ring)
  obtain ⟨hqlow, hqhigh⟩ := abs_le.mp hquotient
  obtain ⟨hlow, hhigh⟩ := abs_le.mp h
  rw [value_halfPi] at hlow hhigh
  -- the quotient is rounded to a number next to `n`
  obtain ⟨c, hc, hcnear⟩ := exists_near
    (Decimal.div_roundsOnce calculator_ample x.abs halfPi_ne_zero)
    (by rw [abs_of_nonneg (by linarith)]; linarith)
  have hnearest : c.nearestInteger.value = n := by
    obtain ⟨hclow, hchigh⟩ := hcnear.bounds (by linarith)
    refine Decimal.nearestInteger_eq (abs_lt.mpr ⟨?_, ?_⟩) <;> linarith
  -- the product is rounded, and so is the difference
  have hproduct := Decimal.mul_roundsOnce calculator_ample c.nearestInteger halfPi
  rw [hnearest, value_halfPi] at hproduct
  obtain ⟨p, hp, hpnear⟩ := exists_near hproduct
    (by rw [abs_of_nonneg (by linarith)]; linarith)
  obtain ⟨hplow, hphigh⟩ := hpnear.bounds (by linarith)
  have hdistance : |x.abs.value - p.value| ≤ 4 * n / 10 ^ 27 := by
    refine abs_le.mpr ⟨?_, ?_⟩ <;> linarith
  obtain ⟨r, hr, hrnear⟩ := exists_near (Decimal.sub_roundsOnce calculator_ample x.abs p)
    (by linarith)
  obtain ⟨-, hrabs⟩ := hrnear.abs_bounds
  -- both bounds of the slack leave room for these errors
  have hrelative := Decimal.mul_roundsOnce calculator_ample x.abs poleTolerance
  rw [value_poleTolerance] at hrelative
  obtain ⟨s, hs, hsnear⟩ := exists_near hrelative
    (by rw [abs_of_nonneg (by linarith)]; linarith)
  obtain ⟨hslow, -⟩ := hsnear.bounds (by linarith)
  have hlimit := Decimal.mul_roundsOnce calculator_ample halfPi poleSlackLimit
  rw [value_halfPi, value_poleSlackLimit] at hlimit
  obtain ⟨m, hm, hmnear⟩ := exists_near hlimit (by norm_num)
  obtain ⟨hmlow, -⟩ := hmnear.bounds (by norm_num)
  refine (isOddMultiple_iff _ _ _).mpr
    ⟨n, c, p, r, s, m, hc, hnearest, hp, hr, hs, hm, by omega, hodd, ?_, ?_⟩ <;> linarith

theorem tangent_of_near {x : Decimal} {n : ℤ} (hodd : Odd n) (hn : |n| ≤ 10 ^ 14)
    (h : |x.value - n * halfPi.value| ≤ |(n : ℚ)| * halfPi.value / (5 * 10 ^ 26)) :
    tangent x = .error .math := by
  have hcast : ((n.natAbs : Nat) : ℚ) = |(n : ℚ)| := by rw [Nat.cast_natAbs, Int.cast_abs]
  have hunit : |halfPi.value| = halfPi.value := abs_of_pos (by norm_num [value_halfPi])
  refine if_pos (test_of_near hodd.natAbs ?_ ?_)
  · rw [Int.abs_eq_natAbs] at hn
    omega
  · rw [Decimal.value_abs, hcast]
    refine le_trans ?_ h
    have habs := abs_abs_sub_abs_le x.value (n * halfPi.value)
    rwa [abs_mul, hunit] at habs

theorem odd_range {n : ℤ} (hodd : Odd n) (hn : |n| ≤ 10 ^ 14) :
    (1 : ℚ) ≤ |(n : ℚ)| ∧ |(n : ℚ)| ≤ 10 ^ 14 := by
  have hne : n ≠ 0 := by
    rintro rfl
    exact absurd hodd (by decide)
  exact ⟨by exact_mod_cast Int.one_le_abs hne, by exact_mod_cast hn⟩

/-- A product with π/2 is rounded once. -/
theorem tangent_of_multiple {d : Decimal} {n : ℤ} (hodd : Odd n) (hn : |n| ≤ 10 ^ 14)
    (hd : d.value = n) : ∃ z, multiply d halfPi = .ok z ∧ tangent z = .error .math := by
  obtain ⟨hleast, hgreatest⟩ := odd_range hodd hn
  have hunit : |halfPi.value| = halfPi.value := abs_of_pos (by norm_num [value_halfPi])
  obtain ⟨z, hz, hznear⟩ := exists_near (Decimal.mul_roundsOnce calculator_ample d halfPi)
    (by rw [abs_mul, hd, hunit, value_halfPi]; linarith)
  refine ⟨z, by rw [multiply, hz, check], tangent_of_near hodd hn ?_⟩
  rw [Near, abs_mul, hd, hunit] at hznear
  rw [value_halfPi] at hznear ⊢
  linarith

/-- A product with π is rounded, halved and rounded again. -/
theorem tangent_of_half {d : Decimal} {n : ℤ} (hodd : Odd n) (hn : |n| ≤ 10 ^ 14)
    (hd : d.value = n) :
    ∃ y z, multiply d pi = .ok y ∧ divide y (.ofNat 2) = .ok z ∧ tangent z = .error .math := by
  obtain ⟨hleast, hgreatest⟩ := odd_range hodd hn
  have hpi : |pi.value| = pi.value := abs_of_pos (by norm_num [value_pi])
  obtain ⟨y, hy, hynear⟩ := exists_near (Decimal.mul_roundsOnce calculator_ample d pi)
    (by rw [abs_mul, hd, hpi, value_pi]; linarith)
  have hyabs := hynear.abs_bounds.2
  rw [abs_mul, hd, hpi, value_pi] at hyabs
  rw [Near, abs_mul, hd, hpi, value_pi] at hynear
  have hhalf : |y.value / (Decimal.ofNat 2).value| = |y.value| / 2 := by
    rw [Decimal.value_ofNat, abs_div, Nat.abs_cast, Nat.cast_ofNat]
  obtain ⟨z, hz, hznear⟩ := exists_near
    (Decimal.div_roundsOnce calculator_ample y (show (Decimal.ofNat 2).isZero = false from rfl))
    (by rw [hhalf]; linarith)
  rw [Near, hhalf, Decimal.value_ofNat, Nat.cast_ofNat] at hznear
  have hdivide : divide y (.ofNat 2) = .ok z := by
    rw [divide, if_neg (by decide), hz, check]
  refine ⟨y, z, by rw [multiply, hy, check], hdivide, tangent_of_near hodd hn ?_⟩
  obtain ⟨hylow, hyhigh⟩ := abs_le.mp hynear
  obtain ⟨hzlow, hzhigh⟩ := abs_le.mp hznear
  have hbelow := neg_abs_le (n : ℚ)
  have habove := le_abs_self (n : ℚ)
  rw [value_halfPi]
  refine abs_le.mpr ⟨?_, ?_⟩ <;> linarith

/-- Whatever passes the test is near to an odd multiple. -/
theorem near_of_test {x : Decimal} (h : isOddMultiple x halfPi poleTolerance = true) :
    ∃ n : ℤ, Odd n ∧ |x.value - n * halfPi.value| ≤ 1.1 / 10 ^ 26 * |x.value| := by
  obtain ⟨n, c, p, r, s, m, h⟩ := (isOddMultiple_iff x _ _).mp h
  have hleast : (1 : ℚ) ≤ n := by exact_mod_cast h.odd.pos
  have hproduct := near_of_rounded
    ((Decimal.mul_roundsOnce calculator_ample c.nearestInteger halfPi).some_value p h.product)
  have hdifference := near_of_rounded
    ((Decimal.sub_roundsOnce calculator_ample x.abs p).some_value r h.difference)
  have hrelative := near_of_rounded
    ((Decimal.mul_roundsOnce calculator_ample x.abs poleTolerance).some_value s h.relative)
  have hclose := h.close
  rw [h.nearest, value_halfPi] at hproduct
  rw [Decimal.value_abs] at hdifference hrelative
  rw [value_poleTolerance] at hrelative
  have hnonneg := abs_nonneg x.value
  obtain ⟨hplow, hphigh⟩ := hproduct.bounds (by linarith)
  obtain ⟨hrlow, -⟩ := hdifference.abs_bounds
  obtain ⟨-, hshigh⟩ := hrelative.bounds (by linarith)
  have hbelow := neg_abs_le (|x.value| - p.value)
  have habove := le_abs_self (|x.value| - p.value)
  have hdistance : |(|x.value| - n * halfPi.value)| ≤ 1.1 / 10 ^ 26 * |x.value| := by
    rw [value_halfPi]
    refine abs_le.mpr ⟨?_, ?_⟩ <;> linarith
  have hodd : Odd (n : ℤ) := by exact_mod_cast h.odd
  rcases abs_choice x.value with hx | hx
  · have hsigned : x.value - ((n : ℤ) : ℚ) * halfPi.value = |x.value| - n * halfPi.value := by
      rw [hx, Int.cast_natCast]
    exact ⟨n, hodd, by rwa [hsigned]⟩
  · have hsigned : x.value - ((-n : ℤ) : ℚ) * halfPi.value = -(|x.value| - n * halfPi.value) := by
      rw [hx]
      push_cast
      ring
    exact ⟨-n, hodd.neg, by rwa [hsigned, abs_neg]⟩

/-- The tangent has an error at the odd multiples of π/2, whether π is halved first or last.
Conversely the test for a pole rejects only numbers that agree with an odd multiple of π/2 in almost
all of their digits. -/
theorem radian_poles_are_caught :
    (∀ n : ℤ, Odd n → |n| ≤ 10 ^ 14 → ∀ d : Decimal, d.value = n →
      (∃ y z, multiply d pi = .ok y ∧ divide y (.ofNat 2) = .ok z ∧ tangent z = .error .math) ∧
      ∃ z, multiply d halfPi = .ok z ∧ tangent z = .error .math) ∧
    ∀ x : Decimal, isOddMultiple x halfPi poleTolerance = true →
      ∃ n : ℤ, Odd n ∧ |x.value - n * halfPi.value| ≤ 1.1 / 10 ^ 26 * |x.value| := by
  refine ⟨fun n hodd hn d hd => ?_, fun x hx => near_of_test hx⟩
  exact ⟨tangent_of_half hodd hn hd, tangent_of_multiple hodd hn hd⟩

/-- The last odd number of the range, written with a place too many, and a number that passes the
test without being a multiple of π/2. -/
theorem radian_poles_are_caught_at_limit :
    let n : ℤ := -99999999999999
    let d : Decimal := ⟨true, 999999999999990, -1⟩
    let x : Decimal := ⟨false, 4712388980384689857693965079, -27⟩
    Odd n ∧ |n| ≤ 10 ^ 14 ∧ d.value = n ∧
      (∃ y z, multiply d pi = .ok y ∧ divide y (.ofNat 2) = .ok z ∧ tangent z = .error .math) ∧
      (∃ z, multiply d halfPi = .ok z ∧ tangent z = .error .math) ∧
      isOddMultiple x halfPi poleTolerance = true ∧ x.value ≠ 3 * halfPi.value ∧
      ∃ k : ℤ, Odd k ∧ |x.value - k * halfPi.value| ≤ 1.1 / 10 ^ 26 * |x.value| := by
  intro n d x
  have hodd : Odd n := by decide
  have hn : |n| ≤ 10 ^ 14 := by decide
  have hd : d.value = n := by norm_num [d, n, Decimal.value, Decimal.sign]
  have hx : isOddMultiple x halfPi poleTolerance = true := by decide +kernel
  have hne : x.value ≠ 3 * halfPi.value := by
    rw [value_halfPi]
    norm_num [x, Decimal.value, Decimal.sign]
  obtain ⟨hpoles, hnear⟩ := radian_poles_are_caught
  obtain ⟨hhalf, hmultiple⟩ := hpoles n hodd hn d hd
  exact ⟨hodd, hn, hd, hhalf, hmultiple, hx, hne, hnear x hx⟩

end Numeric

end Abacus
