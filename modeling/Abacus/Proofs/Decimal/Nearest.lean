import Abacus.Proofs.Decimal.Canonical
import Mathlib.Data.Nat.Cast.Field

/-!
Rounding into a format happens once.

The exponent of the leading digit of the exact value fixes a grid, and the value is moved to the
nearest point of the grid, the one with the even coefficient if it is in the middle of two. There is
no result if that point is above the greatest value of the format, and this is decided by one
threshold on the exact value, half a unit of the last place above the greatest value: the tie at the
threshold goes up, because the power of ten behind the greatest coefficient is even.
-/
namespace Abacus

/-- `w` is the multiple of `10 ^ e` that is nearest to `v`, ties to the even multiple. -/
def RoundsAt (e : ℤ) (v w : ℚ) : Prop := ∃ n : ℤ, w = n * 10 ^ e ∧ NearestEven (v / 10 ^ e) n

theorem RoundsAt.signed {e : ℤ} {v w : ℚ} (h : RoundsAt e v w) (negative : Bool) :
    RoundsAt e (Decimal.sign negative * v) (Decimal.sign negative * w) := by
  obtain ⟨n, rfl, hn⟩ := h
  refine ⟨if negative then -n else n, ?_, mul_div_assoc _ v _ ▸ hn.signed negative⟩
  cases negative <;> simp [Decimal.sign]

theorem roundsAt_zero (e : ℤ) : RoundsAt e 0 0 :=
  ⟨0, by simp, by simpa using nearestEven_intCast 0⟩

/-- An even number is reached by rounding from half a unit below it on. -/
theorem NearestEven.le_iff {v : ℚ} {n m : ℤ} (h : NearestEven v n) (hm : Even m) :
    m ≤ n ↔ m - 1 / 2 ≤ v := by
  obtain ⟨hbelow, habove⟩ := abs_le.mp h.near
  constructor
  · intro hle
    have hle : (m : ℚ) ≤ n := by exact_mod_cast hle
    linarith
  · intro hle
    by_contra hlt
    have hsucc : (n : ℚ) + 1 ≤ m := by exact_mod_cast Int.not_le.mp hlt
    -- then `v` is half a unit above `n`, an even neighbour of an even number
    have hn : Even n := h.even (by rw [abs_of_nonneg] <;> linarith)
    have hneighbour : n + 1 = m := by exact_mod_cast (by linarith : (n : ℚ) + 1 = m)
    rw [Int.even_iff] at hn hm
    omega

/-- Rounding does not pass an integer. -/
theorem NearestEven.le_of_le {v : ℚ} {n m : ℤ} (h : NearestEven v n) (hm : m ≤ v) : m ≤ n := by
  obtain ⟨-, habove⟩ := abs_le.mp h.near
  by_contra hlt
  have hsucc : (n : ℚ) + 1 ≤ m := by exact_mod_cast Int.not_le.mp hlt
  linarith

theorem even_ten_pow {k : Nat} (hk : k ≠ 0) : Even ((10 : ℤ) ^ k) :=
  (show Even (10 : ℤ) by decide).pow_of_ne_zero hk

theorem ten_zpow_le_iff {a b : ℤ} : (10 : ℚ) ^ a ≤ 10 ^ b ↔ a ≤ b :=
  zpow_le_zpow_iff_right₀ (by norm_num)

theorem ten_zpow_lt_iff {a b : ℤ} : (10 : ℚ) ^ a < 10 ^ b ↔ a < b :=
  zpow_lt_zpow_iff_right₀ (by norm_num)

/-- The exponent of the leading digit is determined by the value. -/
theorem leading_unique {v : ℚ} {a b : ℤ} (ha : 10 ^ a ≤ v) (ha' : v < 10 ^ (a + 1))
    (hb : 10 ^ b ≤ v) (hb' : v < 10 ^ (b + 1)) : a = b := by
  have hab := ten_zpow_lt_iff.mp (ha.trans_lt hb')
  have hba := ten_zpow_lt_iff.mp (hb.trans_lt ha')
  omega

/-! ### The exponent of the leading digit -/

theorem pow_digitCount_le {n : Nat} (hn : n ≠ 0) : 10 ^ (digitCount n - 1) ≤ n := by
  by_contra hlt
  rcases Nat.eq_zero_or_pos (digitCount n - 1) with hzero | hpos
  · rw [hzero, Nat.pow_zero] at hlt
    omega
  · have := (digitCount_le_iff hpos).mpr (Nat.not_le.mp hlt)
    omega

namespace Decimal

/-- The magnitude of `± (n / d) · 10 ^ e`. -/
def magnitude (n d : Nat) (e : Int) : ℚ := (n : ℚ) / d * 10 ^ e

/-- The integer part of the quotient has the leading digit. -/
theorem magnitude_leading {n d : Nat} (hd : 0 < d) (hquotient : n / d ≠ 0) (e : Int) :
    10 ^ (e + digitCount (n / d) - 1) ≤ magnitude n d e ∧
      magnitude n d e < 10 ^ (e + digitCount (n / d) - 1 + 1) := by
  have hpos : (0 : ℚ) < d := by exact_mod_cast hd
  have hcount := digitCount_pos (n / d)
  have hten := ten_zpow_pos e
  have hscale : ∀ k : Nat, (10 : ℚ) ^ (e + k) = (10 ^ k : Nat) * 10 ^ e := by
    intro k
    rw [zpow_add₀ (by norm_num), mul_comm, zpow_natCast]
    push_cast
    rfl
  have hleast : ((10 ^ (digitCount (n / d) - 1) : Nat) : ℚ) ≤ (n : ℚ) / d := by
    rw [le_div_iff₀ hpos]
    exact_mod_cast (Nat.le_div_iff_mul_le hd).mp (pow_digitCount_le hquotient)
  have hgreatest : (n : ℚ) / d < ((10 ^ digitCount (n / d) : Nat) : ℚ) := by
    rw [div_lt_iff₀ hpos]
    exact_mod_cast (Nat.div_lt_iff_lt_mul hd).mp (lt_pow_digitCount (n / d))
  constructor
  · rw [show e + digitCount (n / d) - 1 = e + ((digitCount (n / d) - 1 : Nat) : Int) by omega,
      hscale, magnitude]
    exact mul_le_mul_of_nonneg_right hleast hten.le
  · rw [show e + digitCount (n / d) - 1 + 1 = e + (digitCount (n / d) : Int) by omega, hscale,
      magnitude]
    exact mul_lt_mul_of_pos_right hgreatest hten

theorem magnitude_one (x : Decimal) : magnitude x.coefficient 1 x.exponent = |x.value| := by
  rw [abs_value, magnitude, Nat.cast_one, div_one]

/-- A decimal has its leading digit above a place if its magnitude reaches the next power of ten. -/
theorem lt_adjusted_iff {x : Decimal} {k : Int} (h : x.isZero = true → x.exponent ≤ k) :
    k < x.adjusted ↔ 10 ^ (k + 1) ≤ |x.value| := by
  cases hx : x.isZero with
  | true =>
    have hcoefficient : x.coefficient = 0 := by simpa [isZero] using hx
    have hle := h hx
    have hpos := ten_zpow_pos (k + 1)
    rw [value_of_isZero hx, abs_zero, adjusted, hcoefficient, digitCount_zero]
    exact iff_of_false (by omega) (by linarith)
  | false =>
    have hne : x.coefficient / 1 ≠ 0 := by simpa [isZero] using hx
    obtain ⟨hleast, hgreatest⟩ := magnitude_leading Nat.one_pos hne x.exponent
    rw [magnitude_one, Nat.div_one] at hleast hgreatest
    constructor
    · intro hlt
      exact (ten_zpow_le_iff.mpr (by unfold adjusted at hlt; omega)).trans hleast
    · intro hle
      have := ten_zpow_lt_iff.mp (hle.trans_lt hgreatest)
      unfold adjusted
      omega

end Decimal

namespace Format

open Decimal (sign value magnitude)

/-! ### The grid and the threshold -/

/-- The exponent of the last place that is kept, if the leading digit has the exponent `a`. -/
def lastPlace (f : Format) (a : Int) : Int := max (a + 1 - f.digits) f.tiny

/-- Half a unit of the last place above the greatest value. -/
def threshold (f : Format) : ℚ := (10 ^ f.digits - 1 / 2) * 10 ^ (f.maxExponent + 1 - f.digits)

/-- `w` is `v` with as many digits as the format has, or a multiple of the least value if `v` is
smaller than a normal value. -/
structure Rounded (f : Format) (v w : ℚ) : Prop where
  normal : ∀ a, f.minExponent ≤ a → 10 ^ a ≤ |v| → |v| < 10 ^ (a + 1) →
    RoundsAt (a + 1 - f.digits) v w
  subnormal : |v| < 10 ^ f.minExponent → RoundsAt f.tiny v w

/-- The result for the exact value `v`. -/
structure RoundsOnce (f : Format) (v : ℚ) (result : Option Decimal) : Prop where
  none_iff : result = none ↔ f.threshold ≤ |v|
  some_value : ∀ z, result = some z → f.Rounded v z.value

/-- The formats that have a normal value. -/
structure Ample (f : Format) : Prop where
  digits : 0 < f.digits
  range : f.minExponent ≤ f.maxExponent

theorem calculator_ample : calculator.Ample := ⟨by decide, by decide⟩

theorem threshold_eq (f : Format) :
    f.threshold = 10 ^ (f.maxExponent + 1) - 10 ^ (f.maxExponent + 1 - f.digits) / 2 := by
  have hten : (10 : ℚ) ^ (f.maxExponent + 1)
      = 10 ^ f.digits * 10 ^ (f.maxExponent + 1 - f.digits) := by
    rw [← zpow_natCast, ← zpow_add₀ (by norm_num)]
    congr 1
    omega
  rw [threshold, hten]
  ring

theorem threshold_pos (f : Format) : 0 < f.threshold := by
  have hone : (1 : ℚ) ≤ 10 ^ f.digits := one_le_pow₀ (by norm_num)
  exact mul_pos (by linarith) (ten_zpow_pos _)

/-- All powers of ten that values of the format have are below the threshold. -/
theorem pow_lt_threshold {f : Format} (hf : f.Ample) : 10 ^ f.maxExponent < f.threshold := by
  have hpos := ten_zpow_pos f.maxExponent
  have hunit : (10 : ℚ) ^ (f.maxExponent + 1 - f.digits) ≤ 10 ^ f.maxExponent :=
    ten_zpow_le_iff.mpr (by have := hf.digits; omega)
  rw [threshold_eq, zpow_add₀ (by norm_num), zpow_one]
  linarith

/-- Rounding a value with the leading digit at `a` leaves the format from the threshold on. -/
theorem threshold_le_iff {f : Format} (hf : f.Ample) {v : ℚ} {a n : ℤ} (hleast : 10 ^ a ≤ v)
    (hgreatest : v < 10 ^ (a + 1)) (hn : NearestEven (v / 10 ^ f.lastPlace a) n) :
    10 ^ (f.maxExponent + 1) ≤ (n : ℚ) * 10 ^ f.lastPlace a ↔ f.threshold ≤ v := by
  have hdigits := hf.digits
  have hrange := hf.range
  have htiny : f.tiny = f.minExponent + 1 - f.digits := rfl
  have hunit := ten_zpow_pos (f.lastPlace a)
  have hplace : f.lastPlace a = max (a + 1 - f.digits) f.tiny := rfl
  -- a power of ten on the grid as a multiple of the unit
  have hmultiple : ∀ k, f.lastPlace a ≤ k →
      (10 : ℚ) ^ k = (((10 : ℤ) ^ (k - f.lastPlace a).toNat : ℤ) : ℚ) * 10 ^ f.lastPlace a := by
    intro k hk
    rw [ten_zpow_of_le hk]
    push_cast
    rfl
  rcases Int.lt_trichotomy a f.maxExponent with hlt | rfl | hgt
  · have hbelow : v < 10 ^ f.maxExponent :=
      hgreatest.trans_le (ten_zpow_le_iff.mpr (by omega))
    have hreach := pow_lt_threshold hf
    refine iff_of_false (fun hle => ?_) (by linarith)
    have hpower := hmultiple (f.maxExponent + 1) (by omega)
    rw [hpower, mul_le_mul_iff_left₀ hunit, Int.cast_le,
      hn.le_iff (even_ten_pow (by omega)), le_div_iff₀ hunit, sub_mul, ← hpower] at hle
    have hsmall : (10 : ℚ) ^ f.lastPlace a ≤ 10 ^ f.maxExponent := ten_zpow_le_iff.mpr (by omega)
    rw [zpow_add₀ (by norm_num), zpow_one] at hle
    linarith [ten_zpow_pos f.maxExponent]
  · have hlast : f.lastPlace f.maxExponent = f.maxExponent + 1 - f.digits := by omega
    have hpower := hmultiple (f.maxExponent + 1) (by omega)
    rw [hpower, mul_le_mul_iff_left₀ hunit, Int.cast_le, hn.le_iff (even_ten_pow (by omega)),
      le_div_iff₀ hunit, sub_mul, ← hpower, threshold_eq, hlast, one_div_mul_eq_div]
  · have hhigh : (10 : ℚ) ^ (f.maxExponent + 1) ≤ 10 ^ a := ten_zpow_le_iff.mpr (by omega)
    refine iff_of_true (hhigh.trans ?_) ?_
    · have hpower := hmultiple a (by omega)
      rw [hpower, mul_le_mul_iff_left₀ hunit, Int.cast_le]
      refine hn.le_of_le ?_
      rwa [le_div_iff₀ hunit, ← hpower]
    · rw [threshold_eq]
      linarith [ten_zpow_pos (f.maxExponent + 1 - f.digits)]

/-- The grid of a value is the one that its magnitude asks for. -/
theorem rounded_of_lastPlace {f : Format} {v w : ℚ} {a : ℤ} (hleast : 10 ^ a ≤ |v|)
    (hgreatest : |v| < 10 ^ (a + 1)) (h : RoundsAt (f.lastPlace a) v w) : f.Rounded v w := by
  have hplace : f.lastPlace a = max (a + 1 - f.digits) f.tiny := rfl
  have htiny : f.tiny = f.minExponent + 1 - f.digits := rfl
  constructor
  · intro b hb hle hlt
    obtain rfl := leading_unique hleast hgreatest hle hlt
    rwa [show f.lastPlace a = a + 1 - f.digits by omega] at h
  · intro hlt
    have := ten_zpow_lt_iff.mp (hleast.trans_lt hlt)
    rwa [show f.lastPlace a = f.tiny by omega] at h

theorem rounded_zero (f : Format) : f.Rounded 0 0 := by
  refine ⟨fun a _ hle _ => ?_, fun _ => roundsAt_zero _⟩
  rw [abs_zero] at hle
  exact absurd hle (not_le.mpr (ten_zpow_pos a))

/-! ### Rounding a quotient -/

theorem div_le_roundDiv (n d : Nat) : n / d ≤ roundDiv n d := by
  unfold roundDiv
  simp only
  split
  · omega
  split <;> omega

theorem abs_sign_mul (negative : Bool) (v : ℚ) : |sign negative * v| = |v| := by
  cases negative <;> simp [sign]

theorem value_carry {f : Format} {x : Decimal} (h : x.coefficient ≤ 10 ^ f.digits)
    (hf : 0 < f.digits) : (f.carry x).value = x.value := by
  unfold carry
  split
  · next hcount =>
    have hcoefficient : x.coefficient = 10 ^ f.digits := by
      rw [← Nat.not_le, digitCount_le_iff hf] at hcount
      omega
    have hpad : x = Decimal.pad 1 ⟨x.negative, x.coefficient / 10, x.exponent + 1⟩ := by
      obtain ⟨k, hk⟩ := Nat.exists_eq_succ_of_ne_zero hf.ne'
      have hdvd : x.coefficient / 10 * 10 ^ 1 = x.coefficient := by
        rw [hcoefficient, hk, Nat.pow_succ]
        omega
      rw [Decimal.pad, hdvd, show x.exponent + 1 - ((1 : Nat) : Int) = x.exponent by omega]
    conv_rhs => rw [hpad]
    exact (Decimal.value_pad _ _).symm
  · rfl

/-- Digits of `(n / d) · 10 ^ e` that are not kept. -/
def dropped (f : Format) (n d : Nat) (e : Int) : Int :=
  max (digitCount (n / d) - f.digits) (f.tiny - e)

/-- The point of the grid that a quotient other than zero is moved to, however large it is. -/
def settled (f : Format) (negative : Bool) (n d : Nat) (e : Int) : Decimal :=
  if f.dropped n d e ≤ 0 then ⟨negative, n / d, e⟩
  else
    f.carry ⟨negative, roundDiv n (d * 10 ^ (f.dropped n d e).toNat), e + f.dropped n d e⟩

theorem settle_eq (f : Format) (negative : Bool) {n : Nat} (d : Nat) (e : Int) (hn : n ≠ 0) :
    f.settle negative n d e
      = if f.maxExponent < (f.settled negative n d e).adjusted then none
        else some (f.settled negative n d e) := by
  rw [settle, if_neg hn]
  rfl

theorem lastPlace_leading (f : Format) (n d : Nat) (e : Int) :
    f.lastPlace (e + digitCount (n / d) - 1) = e + f.dropped n d e := by
  unfold lastPlace dropped
  omega

theorem roundsAt_settled {f : Format} (hf : f.Ample) (negative : Bool) {n d : Nat} (e : Int)
    (hd : 0 < d) (hexact : d ∣ n ∨ f.digits < digitCount (n / d)) :
    ∃ r : Nat, NearestEven (magnitude n d e / 10 ^ (e + f.dropped n d e)) r ∧
      (f.settled negative n d e).value = sign negative * (r * 10 ^ (e + f.dropped n d e)) := by
  have hleast : (digitCount (n / d) - f.digits : Int) ≤ f.dropped n d e := Int.le_max_left ..
  by_cases hkept : f.dropped n d e ≤ 0
  · -- nothing is dropped, so the quotient is exact
    have hdvd : d ∣ n := hexact.resolve_right (by omega)
    have hten : (10 : ℚ) ^ e
        = ((10 ^ (-f.dropped n d e).toNat : Nat) : ℚ) * 10 ^ (e + f.dropped n d e) := by
      rw [ten_zpow_of_le (show e + f.dropped n d e ≤ e by omega)]
      congr 4
      omega
    have hmagnitude : magnitude n d e
        = ((n / d * 10 ^ (-f.dropped n d e).toNat : Nat) : ℤ) * 10 ^ (e + f.dropped n d e) := by
      have hpos : (d : ℚ) ≠ 0 := by exact_mod_cast hd.ne'
      rw [magnitude, ← Nat.cast_div hdvd hpos, hten, ← mul_assoc, Int.cast_natCast, Nat.cast_mul]
    refine ⟨n / d * 10 ^ (-f.dropped n d e).toNat, ?_, ?_⟩
    · rw [hmagnitude, mul_div_cancel_right₀ _ (ten_zpow_pos _).ne']
      exact nearestEven_intCast _
    · rw [settled, if_pos hkept, value, hten, Nat.cast_mul, mul_assoc]
  · have hscale : (10 : ℚ) ^ (e + f.dropped n d e)
        = (10 ^ (f.dropped n d e).toNat : Nat) * 10 ^ e := by
      rw [ten_zpow_of_le (show e ≤ e + f.dropped n d e by omega)]
      congr 3
      omega
    have hmagnitude : magnitude n d e / 10 ^ (e + f.dropped n d e)
        = (n : ℚ) / ((d * 10 ^ (f.dropped n d e).toNat : Nat) : ℚ) := by
      rw [magnitude, hscale, mul_div_mul_right _ _ (ten_zpow_pos e).ne', div_div, Nat.cast_mul]
    have hround : roundDiv n (d * 10 ^ (f.dropped n d e).toNat) ≤ 10 ^ f.digits :=
      roundDiv_le_pow (by omega)
    refine ⟨roundDiv n (d * 10 ^ (f.dropped n d e).toNat), ?_, ?_⟩
    · rw [hmagnitude]
      exact roundDiv_nearestEven n (Nat.mul_pos hd (Nat.pow_pos (by decide)))
    · rw [settled, if_neg hkept, value_carry hround hf.digits, value]

/-- Only values below the least one are rounded to zero. -/
theorem settled_exponent_of_isZero {f : Format} (hf : f.Ample) (negative : Bool) {n d : Nat}
    (e : Int) (hquotient : n / d ≠ 0) (hzero : (f.settled negative n d e).isZero = true) :
    (f.settled negative n d e).exponent ≤ f.maxExponent := by
  have hdigits := hf.digits
  have hrange := hf.range
  have htiny : f.tiny = f.minExponent + 1 - f.digits := rfl
  have hdropped : f.dropped n d e = max (digitCount (n / d) - f.digits : Int) (f.tiny - e) := rfl
  by_cases hkept : f.dropped n d e ≤ 0
  · rw [settled, if_pos hkept] at hzero
    exact absurd (by simpa [Decimal.isZero] using hzero) hquotient
  rw [settled, if_neg hkept] at hzero ⊢
  generalize hr : roundDiv n (d * 10 ^ (f.dropped n d e).toNat) = r at hzero ⊢
  have hsmall : ¬f.digits < digitCount r := by
    intro hcount
    rw [carry, if_pos hcount] at hzero
    have hten : r < 10 := by simpa [Decimal.isZero] using hzero
    rw [digitCount_of_lt hten] at hcount
    omega
  rw [carry, if_neg hsmall] at hzero ⊢
  -- all digits are dropped, more than the format has
  have hbelow : n / d < 10 ^ (f.dropped n d e).toNat := by
    have hr0 : r = 0 := by simpa [Decimal.isZero] using hzero
    have hle := div_le_roundDiv n (d * 10 ^ (f.dropped n d e).toNat)
    rw [hr, hr0, ← Nat.div_div_eq_div_mul, Nat.le_zero, Nat.div_eq_zero_iff] at hle
    exact hle.resolve_left (Nat.pow_pos (by decide)).ne'
  have hcount := (digitCount_le_iff (by omega)).mpr hbelow
  simp only
  omega

/-- A quotient is rounded once, if it is exact or its integer part is longer than the format. -/
theorem settle_roundsOnce {f : Format} (hf : f.Ample) (negative : Bool) {n d : Nat} (e : Int)
    (hd : 0 < d) (hexact : d ∣ n ∨ f.digits < digitCount (n / d)) :
    f.RoundsOnce (sign negative * magnitude n d e) (f.settle negative n d e) := by
  by_cases hn : n = 0
  · have hzero : magnitude n d e = 0 := by simp [magnitude, hn]
    rw [hzero, mul_zero, settle, if_pos hn]
    refine ⟨iff_of_false (by simp) (by simpa using f.threshold_pos), fun z hz => ?_⟩
    obtain rfl := Option.some.inj hz
    rw [Decimal.value_of_isZero rfl]
    exact f.rounded_zero
  have hquotient : n / d ≠ 0 := by
    rcases hexact with hdvd | hcount
    · exact (Nat.div_pos (Nat.le_of_dvd (Nat.pos_of_ne_zero hn) hdvd) hd).ne'
    · intro hzero
      rw [hzero, digitCount_zero] at hcount
      have := hf.digits
      omega
  obtain ⟨hleast, hgreatest⟩ := Decimal.magnitude_leading hd hquotient e
  obtain ⟨r, hr, hvalue⟩ := roundsAt_settled hf negative e hd hexact
  rw [← lastPlace_leading] at hr hvalue
  have habs : |sign negative * magnitude n d e| = magnitude n d e := by
    rw [abs_sign_mul, abs_of_nonneg ((ten_zpow_pos _).le.trans hleast)]
  have hsettled : |(f.settled negative n d e).value|
      = ((r : ℤ) : ℚ) * 10 ^ f.lastPlace (e + digitCount (n / d) - 1) := by
    have hnonneg : (0 : ℚ) ≤ r * 10 ^ f.lastPlace (e + digitCount (n / d) - 1) :=
      mul_nonneg (Nat.cast_nonneg r) (ten_zpow_pos _).le
    rw [hvalue, abs_sign_mul, abs_of_nonneg hnonneg, Int.cast_natCast]
  have hlarge := Decimal.lt_adjusted_iff (settled_exponent_of_isZero hf negative e hquotient)
  rw [hsettled, threshold_le_iff hf hleast hgreatest hr, ← habs] at hlarge
  rw [f.settle_eq negative d e hn]
  refine ⟨by simp [hlarge], fun z hz => ?_⟩
  obtain ⟨-, rfl⟩ : _ ∧ f.settled negative n d e = z := by simpa using hz
  refine rounded_of_lastPlace (by rwa [habs]) (by rwa [habs]) ?_
  rw [hvalue]
  exact RoundsAt.signed ⟨r, by rw [Int.cast_natCast], hr⟩ negative

theorem round_roundsOnce {f : Format} (hf : f.Ample) (x : Decimal) :
    f.RoundsOnce x.value (f.round x) := by
  have h := settle_roundsOnce hf x.negative x.exponent Nat.one_pos (.inl (one_dvd x.coefficient))
  rwa [Decimal.magnitude_one, ← Decimal.value_eq_sign_mul] at h

end Format

namespace Decimal

open Format (Ample)

variable {f : Format} (hf : f.Ample)
include hf

theorem add_roundsOnce (x y : Decimal) : f.RoundsOnce (x.value + y.value) (x.add f y) :=
  value_exactSum x y ▸ Format.round_roundsOnce hf (x.exactSum y)

theorem sub_roundsOnce (x y : Decimal) : f.RoundsOnce (x.value - y.value) (x.sub f y) := by
  rw [sub_eq_add_neg, ← value_neg]
  exact add_roundsOnce hf x y.neg

theorem mul_roundsOnce (x y : Decimal) : f.RoundsOnce (x.value * y.value) (x.mul f y) :=
  value_exactProduct x y ▸ Format.round_roundsOnce hf (x.exactProduct y)

omit hf in
/-- The scaled dividend is longer than the divisor by as many digits as the format has. -/
theorem digits_lt_digitCount_div {x y : Decimal} (hx : x.coefficient ≠ 0) (hy : y.coefficient ≠ 0)
    {shift : Int}
    (hshift : shift = digitCount y.coefficient - digitCount x.coefficient + f.digits + 1) :
    f.digits < digitCount
      (x.coefficient * 10 ^ shift.toNat / (y.coefficient * 10 ^ (-shift).toNat)) := by
  have hcount := digitCount_pos x.coefficient
  have hpos : 0 < y.coefficient * 10 ^ (-shift).toNat :=
    Nat.mul_pos (Nat.pos_of_ne_zero hy) (Nat.pow_pos (by decide))
  have hlong : 10 ^ f.digits
      ≤ x.coefficient * 10 ^ shift.toNat / (y.coefficient * 10 ^ (-shift).toNat) := by
    rw [Nat.le_div_iff_mul_le hpos]
    calc 10 ^ f.digits * (y.coefficient * 10 ^ (-shift).toNat)
        ≤ 10 ^ f.digits * (10 ^ digitCount y.coefficient * 10 ^ (-shift).toNat) :=
          Nat.mul_le_mul_left _ (Nat.mul_le_mul_right _ (lt_pow_digitCount _).le)
      _ = 10 ^ (digitCount x.coefficient - 1) * 10 ^ shift.toNat := by
          rw [← Nat.pow_add, ← Nat.pow_add, ← Nat.pow_add]
          congr 1
          omega
      _ ≤ x.coefficient * 10 ^ shift.toNat := Nat.mul_le_mul_right _ (pow_digitCount_le hx)
  rcases Nat.eq_zero_or_pos f.digits with hzero | hdigits
  · rw [hzero]
    exact digitCount_pos _
  · rw [← Nat.not_le, digitCount_le_iff hdigits]
    omega

omit hf in
/-- Scaling does not change the quotient. -/
theorem value_div (x y : Decimal) (shift : Int) :
    x.value / y.value = sign (x.negative != y.negative)
      * magnitude (x.coefficient * 10 ^ shift.toNat) (y.coefficient * 10 ^ (-shift).toNat)
        (x.exponent - y.exponent - shift) := by
  have hsign : sign x.negative / sign y.negative = sign (x.negative != y.negative) := by
    cases x.negative <;> cases y.negative <;> simp [sign]
  have hten : ((10 ^ shift.toNat : Nat) : ℚ)
      = (10 ^ (-shift).toNat : Nat) * 10 ^ shift := by
    push_cast
    rw [← zpow_natCast, ← zpow_natCast, ← zpow_add₀ (by norm_num)]
    congr 1
    omega
  have hpow : ((10 ^ (-shift).toNat : Nat) : ℚ) ≠ 0 := by positivity
  have hexponent : (10 : ℚ) ^ (x.exponent - y.exponent)
      = 10 ^ shift * 10 ^ (x.exponent - y.exponent - shift) := by
    rw [← zpow_add₀ (by norm_num)]
    congr 1
    omega
  calc x.value / y.value
      = sign x.negative / sign y.negative
          * (x.coefficient / y.coefficient * (10 ^ x.exponent / 10 ^ y.exponent)) := by
        rw [value, value, mul_div_mul_comm, mul_div_mul_comm]
    _ = sign (x.negative != y.negative) * (x.coefficient / y.coefficient
          * (10 ^ shift * 10 ^ (x.exponent - y.exponent - shift))) := by
        rw [hsign, ← zpow_sub₀ (by norm_num), hexponent]
    _ = _ := by
        rw [magnitude, Nat.cast_mul, Nat.cast_mul, hten, mul_left_comm (x.coefficient : ℚ),
          mul_comm (y.coefficient : ℚ), mul_div_mul_left _ _ hpow]
        ring

/-- The dividend is scaled so that the quotient is rounded once: an inexact one has more digits than
the format before it is rounded. -/
theorem div_roundsOnce (x : Decimal) {y : Decimal} (hy : y.isZero = false) :
    f.RoundsOnce (x.value / y.value) (x.div f y) := by
  have hy : y.coefficient ≠ 0 := by simpa [isZero] using hy
  cases hx : x.isZero with
  | true =>
    rw [value_of_isZero hx, zero_div, div, if_pos hx]
    have h := Format.settle_roundsOnce hf (x.negative != y.negative) (x.exponent - y.exponent)
      Nat.one_pos (.inl (one_dvd 0))
    rwa [magnitude, Nat.cast_zero, zero_div, zero_mul, mul_zero] at h
  | false =>
    have hx : x.coefficient ≠ 0 := by simpa [isZero] using hx
    rw [div, if_neg (by simpa [isZero] using hx)]
    generalize hshift : (digitCount y.coefficient - digitCount x.coefficient + f.digits + 1 : Int)
      = shift
    have hpos : 0 < y.coefficient * 10 ^ (-shift).toNat :=
      Nat.mul_pos (Nat.pos_of_ne_zero hy) (Nat.pow_pos (by decide))
    have hlong := digits_lt_digitCount_div hx hy hshift.symm
    rw [value_div x y shift]
    simp only
    split
    · next hexact =>
      have h := Format.round_roundsOnce hf (strip shift.toNat ⟨x.negative != y.negative,
        x.coefficient * 10 ^ shift.toNat / (y.coefficient * 10 ^ (-shift).toNat),
        x.exponent - y.exponent - shift⟩)
      rwa [value_strip, value, Nat.cast_div (Nat.dvd_of_mod_eq_zero hexact)
        (by exact_mod_cast hpos.ne')] at h
    · exact Format.settle_roundsOnce hf _ _ hpos (.inr hlong)

end Decimal

end Abacus
