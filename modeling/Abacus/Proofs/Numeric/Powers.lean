import Abacus.Proofs.Decimal.Accuracy
import Abacus.Proofs.Numeric.Remainder
import Abacus.Proofs.Numeric.Representation
import Mathlib.Data.Nat.Prime.Basic

/-!
Integer powers that fit are exact.

Without its trailing zeros the base is `c · 10 ^ e`, where ten does not divide `c` and so divides no
power of it. If the digits of `c ^ n` fit the calculator's format, those of all smaller powers do.
The magnitude of a smaller power is between one and that of the whole power. So every square and
every product on the way has a representation that fits, and none of them is rounded, however many
zeros the factors have been written with.
-/
namespace Abacus

/-- `v` can be written with at most `k` significant digits. -/
def Significant (k : Nat) (v : ℚ) : Prop := ∃ c e : ℤ, |c| < 10 ^ k ∧ v = c * 10 ^ e

theorem Significant.abs {k : Nat} {v : ℚ} (h : Significant k v) : Significant k |v| := by
  obtain ⟨c, e, hc, rfl⟩ := h
  refine ⟨|c|, e, by rwa [abs_abs], ?_⟩
  rw [abs_mul, abs_of_pos (ten_zpow_pos e), Int.cast_abs]

theorem ten_dvd_of_dvd_pow {c n : Nat} (h : 10 ∣ c ^ n) : 10 ∣ c := by
  have htwo : 2 ∣ c := Nat.prime_two.dvd_of_dvd_pow (Nat.dvd_trans (by decide) h)
  have hfive : 5 ∣ c := Nat.prime_five.dvd_of_dvd_pow (Nat.dvd_trans (by decide) h)
  omega

/-- A coefficient without a trailing zero has no more digits than any other for the same number. -/
theorem Significant.coefficient_lt {k c : Nat} {e : ℤ} (h : Significant k (c * 10 ^ e))
    (hc : ¬10 ∣ c) : c < 10 ^ k := by
  obtain ⟨m, e', hm, heq⟩ := h
  have hm : m.natAbs < 10 ^ k := by
    have : ((m.natAbs : ℕ) : ℤ) < ((10 ^ k : ℕ) : ℤ) := by
      rw [Int.natCast_natAbs]
      exact_mod_cast hm
    exact_mod_cast this
  rcases Int.lt_or_le e e' with hlt | hle
  · -- the other coefficient would have to be smaller by a factor of ten at least
    have hscaled : (c : ℚ) = m * ((10 ^ (e' - e).toNat : Nat) : ℚ) := by
      rw [ten_zpow_of_le hlt.le, ← mul_assoc] at heq
      exact mul_right_cancel₀ (ten_zpow_pos e).ne' heq
    have hmultiple : (c : ℤ) = m * ((10 ^ (e' - e).toNat : Nat) : ℤ) := by exact_mod_cast hscaled
    have hten : 10 ∣ 10 ^ (e' - e).toNat := dvd_pow_self 10 (by omega)
    have hdvd : ((10 : Nat) : ℤ) ∣ (c : ℤ) := by
      rw [hmultiple]
      exact Dvd.dvd.mul_left (Int.natCast_dvd_natCast.mpr hten) m
    exact absurd (Int.natCast_dvd_natCast.mp hdvd) hc
  · have hscaled : (c : ℚ) * ((10 ^ (e - e').toNat : Nat) : ℚ) = m := by
      rw [ten_zpow_of_le hle, ← mul_assoc] at heq
      exact mul_right_cancel₀ (ten_zpow_pos e').ne' heq
    have hmultiple : ((c * 10 ^ (e - e').toNat : Nat) : ℤ) = m := by exact_mod_cast hscaled
    have hnatAbs : c * 10 ^ (e - e').toNat = m.natAbs := by rw [← hmultiple, Int.natAbs_natCast]
    calc c ≤ c * 10 ^ (e - e').toNat := Nat.le_mul_of_pos_right c (Nat.pow_pos (by decide))
      _ = m.natAbs := hnatAbs
      _ < 10 ^ k := hm

/-- Smaller powers of a number are between one and the power itself. -/
theorem pow_mem_range {v least greatest : ℚ} (hv : 0 < v) (hone : least ≤ 1) (hone' : 1 < greatest)
    {n k : Nat} (hk : k ≤ n) (hleast : least ≤ v ^ n) (hgreatest : v ^ n < greatest) :
    least ≤ v ^ k ∧ v ^ k < greatest := by
  rcases le_total v 1 with hle | hge
  · exact ⟨hleast.trans (pow_le_pow_of_le_one hv.le hle hk),
      (pow_le_one₀ hv.le hle).trans_lt hone'⟩
  · exact ⟨hone.trans (one_le_pow₀ hge), (pow_le_pow_right₀ hge hk).trans_lt hgreatest⟩

namespace Format

/-- A number in the range of normal values fits if it has few enough digits. -/
theorem fits_of_range {f : Format} {x : Decimal} (hdigits : digitCount x.coefficient ≤ f.digits)
    (hleast : 10 ^ f.minExponent ≤ |x.value|) (hgreatest : |x.value| < 10 ^ (f.maxExponent + 1)) :
    f.Fits x := by
  have hne : x.isZero = true → False := by
    intro hzero
    rw [Decimal.value_of_isZero hzero, abs_zero] at hleast
    exact absurd hleast (not_le.mpr (ten_zpow_pos _))
  have hlow : f.minExponent - 1 < x.adjusted := by
    rw [Decimal.lt_adjusted_iff (fun h => (hne h).elim), sub_add_cancel]
    exact hleast
  have hhigh : ¬f.maxExponent < x.adjusted := by
    rw [Decimal.lt_adjusted_iff (fun h => (hne h).elim)]
    exact not_le.mpr hgreatest
  have htiny : f.tiny = f.minExponent + 1 - f.digits := rfl
  refine ⟨hdigits, ?_, Int.not_lt.mp hhigh⟩
  simp only [Decimal.adjusted] at hlow
  omega

end Format

namespace Decimal

theorem reduce_not_ten_dvd {x : Decimal} (hx : x.isZero = false) :
    ¬10 ∣ x.reduce.coefficient := by
  rw [reduce, if_neg (by simp [hx]), Nat.dvd_iff_mod_eq_zero]
  exact strip_mod_ten (by simpa [isZero] using hx) (Nat.le_refl _)

/-- The power of a decimal, digit by digit. -/
def exactPower (x : Decimal) (k : Nat) : Decimal :=
  ⟨false, x.coefficient ^ k, x.exponent * k⟩

theorem value_exactPower (x : Decimal) (k : Nat) : (x.exactPower k).value = |x.value| ^ k := by
  rw [abs_value, mul_pow, ← zpow_natCast (10 ^ x.exponent), ← zpow_mul]
  simp [value, exactPower, sign]

end Decimal

namespace Numeric

open Format (calculator)

/-- If a power fits the calculator's format, then so do all smaller ones. -/
theorem exists_fits_pow {b : Decimal} (hb : b.isZero = false) {n k : Nat} (hk : k ≤ n)
    (hdigits : Significant 28 (|b.value| ^ n)) (hleast : 10 ^ (-28 : ℤ) ≤ |b.value| ^ n)
    (hgreatest : |b.value| ^ n < 10 ^ 29) :
    ∃ w, calculator.Fits w ∧ w.value = |b.value| ^ k := by
  have hvalue : ∀ j, (b.reduce.exactPower j).value = |b.value| ^ j := by
    intro j
    rw [Decimal.value_exactPower, Decimal.value_reduce]
  have hpos : 0 < |b.value| := abs_pos.mpr (Decimal.value_ne_zero hb)
  have hten := Decimal.reduce_not_ten_dvd hb
  have habs : ∀ j, |(b.reduce.exactPower j).value| = |b.value| ^ j := by
    intro j
    rw [hvalue, abs_of_pos (pow_pos hpos j)]
  have hcoefficient : b.reduce.coefficient ^ n < 10 ^ 28 := by
    rw [← habs, Decimal.abs_value] at hdigits
    exact hdigits.coefficient_lt fun hdvd => hten (ten_dvd_of_dvd_pow hdvd)
  have hsmaller : b.reduce.coefficient ^ k ≤ b.reduce.coefficient ^ n := by
    refine Nat.pow_le_pow_right (Nat.pos_of_ne_zero fun hzero => hten ?_) hk
    rw [hzero]
    exact Nat.dvd_zero _
  obtain ⟨hlow, hhigh⟩ := pow_mem_range hpos (by norm_num) (by norm_num) hk hleast hgreatest
  refine ⟨b.reduce.exactPower k, Format.fits_of_range ?_ ?_ ?_, hvalue k⟩
  · exact (digitCount_le_iff (by decide)).mpr (Nat.lt_of_le_of_lt hsmaller hcoefficient)
  · rw [habs]
    exact hlow
  · rw [habs]
    exact hhigh

/-- Repeated squaring is exact as long as all powers fit. -/
theorem powNat_exact {f : Format} {t : Decimal} (ht : t.isZero = false) {n : Nat} (hn : 0 < n)
    (hfits : ∀ k ≤ n, ∃ w, f.Fits w ∧ w.value = t.value ^ k) :
    ∃ r, powNat f t n = some r ∧ r.value = t.value ^ n := by
  induction n using Nat.strongRecOn with
  | ind n ih =>
    rw [powNat]
    by_cases hone : n < 2
    · refine ⟨t, if_pos hone, ?_⟩
      rw [show n = 1 by omega, pow_one]
    rw [if_neg hone]
    obtain ⟨r, hr, hrvalue⟩ := ih (n / 2) (by omega) (by omega) fun k hk => hfits k (by omega)
    have hrne : r.isZero = false := by
      rw [← Bool.not_eq_true, ← Decimal.value_eq_zero_iff, hrvalue]
      exact pow_ne_zero _ (Decimal.value_ne_zero ht)
    -- the square, and for an odd exponent one factor more
    obtain ⟨w, hw, hwvalue⟩ := hfits (n / 2 + n / 2) (by omega)
    obtain ⟨square, hsquare, hsquarevalue⟩ :=
      Decimal.mul_exact hw (show r.value * r.value = w.value by rw [hrvalue, hwvalue, pow_add])
    rw [hwvalue] at hsquarevalue
    by_cases heven : n % 2 = 0
    · refine ⟨square, by simp [hr, hrne, hsquare, heven], ?_⟩
      rw [hsquarevalue]
      congr 1
      omega
    · have hodd : n / 2 + n / 2 + 1 = n := by omega
      obtain ⟨u, hu, huvalue⟩ := hfits n (Nat.le_refl n)
      obtain ⟨z, hz, hzvalue⟩ := Decimal.mul_exact hu
        (show square.value * t.value = u.value by rw [hsquarevalue, huvalue, ← pow_succ, hodd])
      exact ⟨z, by simp [hr, hrne, hsquare, heven, hz], hzvalue.trans huvalue⟩

/-- The format for the steps in between holds all numbers of the calculator. -/
theorem fits_powerFormat {w : Decimal} (h : calculator.Fits w) (x : Decimal) :
    (powerFormat x).Fits w := by
  have hdigits : calculator.digits ≤ (powerFormat x).digits := Nat.le_add_right _ _
  have hleast := h.least
  refine ⟨h.digits.trans hdigits, ?_, h.greatest⟩
  have htiny : (powerFormat x).tiny = calculator.minExponent + 1 - (powerFormat x).digits := rfl
  have htiny' : calculator.tiny = calculator.minExponent + 1 - calculator.digits := rfl
  omega

section Power

variable {b x : Decimal} {n : Nat}

theorem wholeOf_natCast (hx : x.value = n) : wholeOf x = n := by
  rw [wholeOf_eq, hx, Nat.abs_cast, Nat.floor_natCast]

theorem isIntegral_natCast (hx : x.value = n) : x.isIntegral = true := by
  rw [Decimal.isIntegral_eq, hx, Nat.abs_cast, Nat.floor_natCast, decide_eq_true rfl]

theorem powInteger_exact (hb : b.isZero = false) (hx : x.value = n) (hn : 0 < n)
    (hfits : ∀ k ≤ n, ∃ w, calculator.Fits w ∧ w.value = b.value ^ k) :
    ∃ z, powInteger b x = some z ∧ z.value = b.value ^ n := by
  have hnonneg : x.negative = false := by
    have hne : x.isZero = false := by
      rw [← Bool.not_eq_true, ← Decimal.value_eq_zero_iff, hx, Nat.cast_eq_zero]
      omega
    rw [← Bool.not_eq_true, ← Decimal.value_neg_iff hne, hx]
    exact not_lt.mpr (Nat.cast_nonneg n)
  obtain ⟨r, hr, hrvalue⟩ := powNat_exact (f := powerFormat x) hb hn fun k hk => by
    obtain ⟨w, hw, hvalue⟩ := hfits k hk
    exact ⟨w, fits_powerFormat hw x, hvalue⟩
  obtain ⟨w, hw, hwvalue⟩ := hfits n (Nat.le_refl n)
  obtain ⟨z, hz, hzvalue⟩ := Format.round_exact hw (hrvalue.trans hwvalue.symm)
  exact ⟨z, by simp [powInteger, hnonneg, wholeOf_natCast hx, hr, hz], hzvalue.trans hwvalue⟩

/-- A base of magnitude one is not multiplied at all. -/
theorem powMagnitude_exact (hb : b.isZero = false) (hx : x.value = n) (hn : 0 < n)
    (hfits : ∀ k ≤ n, ∃ w, calculator.Fits w ∧ w.value = |b.value| ^ k) :
    ∃ z, powMagnitude b x = some z ∧ z.value = |b.value| ^ n := by
  rw [powMagnitude, isIntegral_natCast hx]
  by_cases hone : b.abs.eqv .one = true
  · refine ⟨powOne b.abs x, if_pos hone, ?_⟩
    have hvalue : |b.value| = 1 := by
      rw [Decimal.eqv_eq, decide_eq_true_iff, Decimal.value_abs] at hone
      simpa [Decimal.value, Decimal.one, Decimal.sign] using hone
    rw [value_powOne, hvalue, one_pow]
  · rw [if_neg hone, if_pos rfl, ← Decimal.value_abs]
    refine powInteger_exact hb hx hn ?_
    rwa [Decimal.value_abs]

/-- The sign of a power is the sign of the base if the exponent is odd. -/
theorem sign_mul_abs_pow (b : Decimal) (n : Nat) :
    Decimal.sign (b.negative && n % 2 == 1) * |b.value| ^ n = b.value ^ n := by
  conv_rhs => rw [b.value_eq_sign_mul, mul_pow]
  congr 1
  cases b.negative with
  | false => simp [Decimal.sign]
  | true =>
    rcases Nat.even_or_odd n with heven | hodd
    · simp [Decimal.sign, heven.neg_one_pow, Nat.even_iff.mp heven]
    · simp [Decimal.sign, hodd.neg_one_pow, Nat.odd_iff.mp hodd]

theorem power_of_zero (hb : b.isZero = false) (hx : x.value = (0 : Nat)) :
    power b x = .ok .one := by
  have hzero : x.isZero = true := Decimal.value_eq_zero_iff.mp (by simpa using hx)
  simp [power, hb, isIntegral_natCast hx, hzero]

theorem power_of_magnitude (hb : b.isZero = false) (hx : x.value = n) (hn : 0 < n) {z : Decimal}
    (hz : powMagnitude b x = some z) :
    power b x = .ok { z with negative := b.negative && n % 2 == 1 } := by
  have hne : x.isZero = false := by
    rw [← Bool.not_eq_true, ← Decimal.value_eq_zero_iff, hx, Nat.cast_eq_zero]
    omega
  simp [power, hb, isIntegral_natCast hx, hne, wholeOf_natCast hx, hz, check]

/-- Every power with an integer exponent from zero on whose exact value has at most 28 significant
digits, and a magnitude in the range of the normal numbers of the calculator, is that value. It does
not matter with how many trailing zeros base and exponent are written. -/
theorem integer_powers_are_exact (hb : b.value ≠ 0) (hx : x.value = n)
    (hdigits : Significant 28 (b.value ^ n)) (hleast : 10 ^ (-28 : ℤ) ≤ |b.value ^ n|)
    (hgreatest : |b.value ^ n| < 10 ^ 29) :
    ∃ z, power b x = .ok z ∧ calculator.Fits z ∧ z.value = b.value ^ n ∧
      (z.negative = true ↔ b.value < 0 ∧ Odd n) := by
  have hb : b.isZero = false := by rwa [← Bool.not_eq_true, ← Decimal.value_eq_zero_iff]
  rcases Nat.eq_zero_or_pos n with rfl | hn
  · refine ⟨.one, power_of_zero hb hx, fits_one, ?_, ?_⟩
    · simp [Decimal.value, Decimal.one, Decimal.sign]
    · simp [Decimal.one]
  have hdigits := hdigits.abs
  rw [abs_pow] at hdigits hleast hgreatest
  obtain ⟨z, hz, hvalue⟩ := powMagnitude_exact hb hx hn fun k hk =>
    exists_fits_pow hb hk hdigits hleast hgreatest
  have hpower := power_of_magnitude hb hx hn hz
  refine ⟨_, hpower, power_inRange b x _ hpower, ?_, ?_⟩
  · rw [value_withSign, hvalue, abs_pow, abs_abs, sign_mul_abs_pow]
  · rw [Decimal.value_neg_iff hb, Nat.odd_iff]
    simp

/-- The coefficient of the base alone has as many digits as the calculator's format, and that of the
exact square has twice as many. -/
theorem integer_powers_are_exact_with_zeros :
    let b : Decimal := ⟨true, 2000000000000000000000000000, -27⟩
    let x : Decimal := ⟨false, 930, -1⟩
    b.value ≠ 0 ∧ x.value = (93 : Nat) ∧ Significant 28 (b.value ^ 93) ∧
      10 ^ (-28 : ℤ) ≤ |b.value ^ 93| ∧ |b.value ^ 93| < 10 ^ 29 ∧
      ∃ z, power b x = .ok z ∧ z.value = -9903520314283042199192993792 ∧ z.negative = true := by
  intro b x
  have hb : b.value = -2 := by norm_num [b, Decimal.value, Decimal.sign]
  have hx : x.value = (93 : Nat) := by norm_num [x, Decimal.value, Decimal.sign]
  have hpower : b.value ^ 93 = -9903520314283042199192993792 := by rw [hb]; norm_num
  have hne : b.value ≠ 0 := by rw [hb]; norm_num
  have hdigits : Significant 28 (b.value ^ 93) :=
    ⟨-9903520314283042199192993792, 0, by norm_num, by rw [hpower]; norm_num⟩
  have hleast : 10 ^ (-28 : ℤ) ≤ |b.value ^ 93| := by rw [hpower]; norm_num
  have hgreatest : |b.value ^ 93| < 10 ^ 29 := by rw [hpower]; norm_num
  obtain ⟨z, hz, -, hvalue, hsign⟩ := integer_powers_are_exact hne hx hdigits hleast hgreatest
  refine ⟨hne, hx, hdigits, hleast, hgreatest, z, hz, hvalue.trans hpower, hsign.mpr ⟨?_, ?_⟩⟩
  · rw [hb]
    norm_num
  · decide

end Power

end Numeric

end Abacus
