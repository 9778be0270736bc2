import Abacus.Proofs.Decimal.Value
import Abacus.Proofs.Numeric.Range

/-!
How numbers are written does not matter.

Every operation gives results of the same value, or the same error, when its operands are written
with other trailing zeros or when a zero among them has another sign. Some of them look at the
representation on the way: powers at the digits of base and exponent, remainders at the length of
the quotient, and tangents at their distance from a pole. What they see there is decided by the
values.
-/
namespace Abacus.Numeric

open Decimal (value)
open Format (calculator)

/-- Numbers of the calculator with the same value. -/
structure Same (x y : Decimal) : Prop where
  left : calculator.Fits x
  right : calculator.Fits y
  value : x.value = y.value

theorem Same.abs {x y : Decimal} (h : Same x y) : Same x.abs y.abs :=
  ⟨h.left.abs, h.right.abs, by rw [Decimal.value_abs, Decimal.value_abs, h.value]⟩

/-! ### Results up to their values -/

theorem check_congr (kind : ErrorKind) {o o' : Option Decimal} (h : o.map value = o'.map value) :
    (check kind o).map value = (check kind o').map value := by
  cases o <;> cases o' <;> simp_all [check, Except.map]

/-- Steps that respect values can be put one behind the other. -/
theorem bind_congr {α β : Type} (view : Option α → β) {o o' : Option Decimal}
    {g g' : Decimal → Option α} (h : o.map value = o'.map value)
    (hg : ∀ x x', x.value = x'.value → view (g x) = view (g' x')) :
    view (o >>= g) = view (o' >>= g') := by
  cases o with
  | none =>
    cases o' with
    | none => rfl
    | some x' => cases h
  | some x =>
    cases o' with
    | none => cases h
    | some x' => exact hg x x' (Option.some.inj h)

theorem checked_bind_congr {r r' : Checked} {g g' : Decimal → Checked}
    (h : r.map value = r'.map value)
    (hg : ∀ x x', r = .ok x → r' = .ok x' → x.value = x'.value →
      (g x).map value = (g' x').map value) :
    (r >>= g).map value = (r' >>= g').map value := by
  cases r <;> cases r' <;> simp_all [Except.map, bind, Except.bind]

theorem isTrue_congr {x y : Decimal} (h : x.value = y.value) : isTrue x = isTrue y := by
  rw [isTrue, isTrue, Decimal.isZero_eq h]

/-! ### Arithmetic -/

section Arithmetic

variable {x x' y y' : Decimal}

theorem multiply_congr (hx : x.value = x'.value) (hy : y.value = y'.value) :
    (multiply x y).map value = (multiply x' y').map value :=
  check_congr _ (Decimal.mul_congr _ hx hy)

theorem divide_congr (hx : Same x x') (hy : Same y y') :
    (divide x y).map value = (divide x' y').map value := by
  rw [divide, divide, ← Decimal.isZero_eq hy.value]
  split
  · rfl
  · next hzero =>
    exact check_congr _ (Decimal.div_congr _ hx.value hx.left.digits hx.right.digits hy.value
      (by simpa using hzero))

theorem narrow_congr (h : x.value = y.value) : (narrow x).map value = (narrow y).map value := by
  refine calculator.round_congr ?_
  rw [← Decimal.isZero_eq h]
  split
  · rw [Decimal.value_abs, Decimal.value_abs, h]
  · exact h

theorem remainder_congr (hx : x.value = x'.value) (hy : y.value = y'.value) :
    (remainder x y).map value = (remainder x' y').map value := by
  have hquotient : x.wholeQuotient y = x'.wholeQuotient y' := by
    rw [Decimal.wholeQuotient_eq, Decimal.wholeQuotient_eq, hx, hy]
  rw [remainder, remainder, ← Decimal.isZero_eq hy, ← hquotient]
  split
  · rfl
  simp only
  split
  · exact check_congr _ (Decimal.rem_congr _ hx hy)
  split
  · exact check_congr _ (bind_congr (Option.map value) (Decimal.rem_congr _ hx hy)
      fun _ _ h => narrow_congr h)
  · rfl

/-! ### Logarithms -/

theorem lnIn_congr (f : Format) (h : x.value = y.value) : lnIn f x = lnIn f y := by
  rw [lnIn, lnIn, Decimal.eqv_congr h rfl, Decimal.reduce_eq h]

theorem log10In_congr (f : Format) (h : x.value = y.value) : log10In f x = log10In f y := by
  rw [log10In, log10In, Decimal.reduce_eq h]

theorem expIn_congr (f : Format) (h : x.value = y.value) : expIn f x = expIn f y := by
  rw [expIn, expIn, Decimal.isZero_eq h, Decimal.reduce_eq h]

theorem naturalLog_congr (h : x.value = y.value) : naturalLog x = naturalLog y := by
  rw [naturalLog, naturalLog, Decimal.lt_congr rfl h, lnIn_congr _ h]

theorem decimalLog_congr (h : x.value = y.value) : decimalLog x = decimalLog y := by
  rw [decimalLog, decimalLog, Decimal.lt_congr rfl h, log10In_congr _ h]

/-! ### Powers -/

theorem wholeOf_eq (x : Decimal) : wholeOf x = ⌊|x.value|⌋₊ := by
  rw [Decimal.abs_value_eq, Rat.natFloor_natCast_div_natCast, wholeOf]

theorem powNat_congr (f : Format) (h : x.value = y.value) (n : Nat) :
    (powNat f x n).map value = (powNat f y n).map value := by
  induction n using Nat.strongRecOn with
  | ind n ih =>
    rw [powNat.eq_def f x, powNat.eq_def f y]
    split
    · simp [h]
    · next hn =>
      refine bind_congr (Option.map value) (ih (n / 2) (by omega)) fun r r' hr => ?_
      rw [Decimal.isZero_eq hr]
      split
      · simp [hr]
      refine bind_congr (Option.map value) (Decimal.mul_congr f hr hr) fun s s' hs => ?_
      split
      · simp [hs]
      · exact Decimal.mul_congr f hs h

theorem powerFormat_congr (h : x.value = y.value) (hx : x.isZero = false) :
    powerFormat x = powerFormat y := by
  have hpad : ∀ (k : Nat) (x : Decimal), x.isZero = false →
      powerFormat (x.pad k) = powerFormat x := by
    intro k x hx
    have hcount := digitCount_mul_pow
      (show x.coefficient ≠ 0 by simpa [Decimal.isZero] using hx) k
    simp only [powerFormat, Decimal.pad, hcount]
    congr 4
    omega
  obtain ⟨k, rfl | rfl⟩ := Decimal.exists_pad h hx
  · exact (hpad k x hx).symm
  · exact hpad k y (Decimal.isZero_eq h ▸ hx)

theorem powInteger_congr (hx : x.value = x'.value) (hy : y.value = y'.value)
    (hx₀ : x.isZero = false) (hy₀ : y.isZero = false) :
    (powInteger x y).map value = (powInteger x' y').map value := by
  have hone : digitCount Decimal.one.coefficient ≤ (powerFormat y').digits := by
    rw [digitCount_of_lt (by decide)]
    exact Nat.add_pos_left (by decide) _
  have hrest : ∀ t t' : Decimal, t.value = t'.value →
      (powNat (powerFormat y') t ⌊|y'.value|⌋₊ >>= calculator.round).map value
        = (powNat (powerFormat y') t' ⌊|y'.value|⌋₊ >>= calculator.round).map value :=
    fun t t' ht => bind_congr (Option.map value) (powNat_congr _ ht _)
      fun r r' hr => calculator.round_congr hr
  rw [powInteger, powInteger, powerFormat_congr hy hy₀, wholeOf_eq, wholeOf_eq, hy,
    ← Decimal.negative_eq hy hy₀]
  simp only
  split
  · exact bind_congr (Option.map value) (Decimal.div_congr_right _ hone hx hx₀) hrest
  · exact hrest x x' hx

theorem value_powOne (x y : Decimal) : (powOne x y).value = 1 := by
  have hplaces : ∀ places : Nat, value ⟨false, 10 ^ places, -(places : Int)⟩ = 1 := by
    intro places
    simp [value, Decimal.sign]
  exact hplaces _

theorem powReal_congr (hx : Same x x') (hy : y.value = y'.value) :
    powReal x y = powReal x' y' := by
  have hformat : ∀ z : Decimal, calculator.Fits z → realFormat z = realFormat .one := by
    intro z hz
    have hone : digitCount Decimal.one.coefficient ≤ calculator.digits := fits_one.digits
    simp only [realFormat, Nat.max_eq_left hz.digits, Nat.max_eq_left hone]
  rw [powReal, powReal, hformat x hx.left, hformat x' hx.right, lnIn_congr _ hx.value]
  congr 1
  funext l
  refine bind_congr id (Decimal.mul_congr _ rfl hy) fun z z' hz => ?_
  rw [expIn_congr _ hz]

theorem powMagnitude_congr (hx : Same x x') (hy : y.value = y'.value) (hx₀ : x.isZero = false)
    (hy₀ : y.isZero = false) :
    (powMagnitude x y).map value = (powMagnitude x' y').map value := by
  have habs := hx.abs
  rw [powMagnitude, powMagnitude, Decimal.eqv_congr habs.value rfl, Decimal.isIntegral_congr hy]
  split
  · simp [value_powOne]
  split
  · exact powInteger_congr habs.value hy hx₀ hy₀
  · rw [powReal_congr habs hy]

theorem value_withSign (negative : Bool) (x : Decimal) :
    value { x with negative := negative } = Decimal.sign negative * |x.value| := by
  rw [Decimal.abs_value, value]

theorem power_congr (hx : Same x x') (hy : y.value = y'.value) :
    (power x y).map value = (power x' y').map value := by
  rw [power, power, ← Decimal.isZero_eq hx.value, ← Decimal.isZero_eq hy, Decimal.lt_congr hy rfl,
    Decimal.isIntegral_congr hy, wholeOf_eq, wholeOf_eq, hy]
  split
  · rfl
  next hx₀ =>
  have hx₀ : x.isZero = false := by simpa using hx₀
  rw [← Decimal.negative_eq hx.value hx₀]
  split
  · rfl
  split
  · rfl
  next hy₀ =>
  have hy₀ : y.isZero = false := by simpa using hy₀
  have hmagnitude := powMagnitude_congr hx hy hx₀ hy₀
  have hsigned : ∀ (negative : Bool) (o : Option Decimal),
      (o.map ({ · with negative := negative })).map value
        = (o.map value).map (Decimal.sign negative * |·|) := by
    intro negative o
    cases o <;> simp [value_withSign]
  exact check_congr _ (by rw [hsigned, hsigned, hmagnitude])

end Arithmetic

/-! ### Angles -/

section Angles

variable {x x' : Decimal}

theorem forward_congr (function : Nat → Int → Nat → Option Enclosure) (h : x.value = x'.value) :
    forward function x = forward function x' := by
  rw [forward, forward, Decimal.reduce_eq h]

theorem sine_congr (h : x.value = x'.value) : sine x = sine x' := by
  rw [sine, sine, Decimal.isZero_eq h, forward_congr _ h]

theorem cosine_congr (h : x.value = x'.value) : cosine x = cosine x' := forward_congr _ h

theorem tangentOf_congr (h : x.value = x'.value) : tangentOf x = tangentOf x' := by
  rw [tangentOf, tangentOf, Decimal.isZero_eq h, forward_congr _ h]

/-- The test for a pole compares values only. -/
theorem isOddMultiple_congr (h : Same x x') (unit tolerance : Decimal) :
    isOddMultiple x unit tolerance = isOddMultiple x' unit tolerance := by
  have habs := h.abs
  unfold isOddMultiple isOddMultiple?
  refine congrArg (Option.getD · false) ?_
  simp only
  refine bind_congr id (Decimal.div_congr_left _ unit habs.value habs.left.digits
    habs.right.digits) fun q q' hq => ?_
  have hnearest := Decimal.nearestInteger_congr hq
  refine bind_congr id (Decimal.mul_congr _ hnearest rfl) fun p p' hp => ?_
  refine bind_congr id (Decimal.sub_congr _ habs.value hp) fun r r' hr => ?_
  refine bind_congr id (Decimal.mul_congr _ habs.value rfl) fun s s' hs => ?_
  refine bind_congr id rfl fun most most' hmost => ?_
  have hquotient : q.nearestInteger.wholeQuotient (.ofNat 2)
      = q'.nearestInteger.wholeQuotient (.ofNat 2) := by
    rw [Decimal.wholeQuotient_eq, Decimal.wholeQuotient_eq, hnearest]
  have hslack : (if most.lt s then most else s).value = (if most'.lt s' then most' else s').value :=
    by
    rw [Decimal.lt_congr hmost hs]
    split
    · exact hmost
    · exact hs
  rw [hquotient]
  split
  · rfl
  · refine bind_congr id (Decimal.rem_congr _ hnearest rfl) fun o o' ho => ?_
    have hrest : r.abs.value = r'.abs.value := by rw [Decimal.value_abs, Decimal.value_abs, hr]
    rw [Decimal.eqv_congr ho rfl, Decimal.le_congr hrest hslack]

theorem toDouble_congr (h : x.value = x'.value) : toDouble x = toDouble x' := by
  rw [toDouble, toDouble, Decimal.reduce_eq h]

theorem arcsine_congr (h : x.value = x'.value) :
    (arcsine x).map value = (arcsine x').map value := by
  rw [arcsine, arcsine, Decimal.isZero_eq h, toDouble_congr h]
  split
  · simp [plainZero, Except.map, value]
  · rfl

theorem arccosine_congr (h : x.value = x'.value) : arccosine x = arccosine x' := by
  rw [arccosine, arccosine, toDouble_congr h]

theorem arctangent_congr (h : x.value = x'.value) :
    (arctangent x).map value = (arctangent x').map value := by
  rw [arctangent, arctangent, Decimal.isZero_eq h, toDouble_congr h]
  split
  · simp [plainZero, Except.map, value]
  · rfl

theorem tangent_congr (h : Same x x') : tangent x = tangent x' := by
  rw [tangent, tangent, isOddMultiple_congr h, tangentOf_congr h.value]

theorem toRadians_congr (h : x.value = x'.value) :
    (toRadians x).map value = (toRadians x').map value := multiply_congr h rfl

theorem toDegrees_congr (h : x.value = x'.value) :
    (toDegrees x).map value = (toDegrees x').map value := multiply_congr h rfl

/-- A function of radians, applied to degrees. -/
theorem degrees_congr {function : Decimal → Checked}
    (hfunction : ∀ z z', value z = value z' → function z = function z') (h : x.value = x'.value) :
    (toRadians x >>= function).map value = (toRadians x' >>= function).map value :=
  checked_bind_congr (toRadians_congr h) fun z z' _ _ hz => by rw [hfunction z z' hz]

theorem tangentDegrees_congr (h : Same x x') :
    (tangentDegrees x).map value = (tangentDegrees x').map value := by
  rw [tangentDegrees, tangentDegrees, isOddMultiple_congr h]
  split
  · rfl
  · exact degrees_congr (fun _ _ => tangentOf_congr) h.value

end Angles

/-! ### All operations -/

/-- Operations on numbers of the calculator, their truth and the texts that show them depend on the
values of the numbers only. -/
structure RespectsValues : Prop where
  unary {op : Operator} {compute : Decimal → Checked} (h : op.meaning = .unary compute)
    {x x' : Decimal} (hx : Same x x') : (compute x).map value = (compute x').map value
  binary {op : Operator} {compute : Decimal → Decimal → Checked} (h : op.meaning = .binary compute)
    {x x' y y' : Decimal} (hx : Same x x') (hy : Same y y') :
    (compute x y).map value = (compute x' y').map value
  angles {x x' : Decimal} (hx : Same x x') :
    (toRadians x).map value = (toRadians x').map value ∧
      (toDegrees x).map value = (toDegrees x').map value
  isTrue {x x' : Decimal} (hx : Same x x') : isTrue x = isTrue x'
  display {x x' : Decimal} (hx : Same x x') (places : Nat) : x.display? places = x'.display? places

theorem unary_congr {op : Operator} {compute : Decimal → Checked} (h : op.meaning = .unary compute)
    {x x' : Decimal} (hx : Same x x') : (compute x).map value = (compute x').map value := by
  cases op <;> cases h
  case negate => exact multiply_congr hx.value rfl
  case complement => simp only [complement, Decimal.isZero_eq hx.value]
  case sin => rw [sine_congr hx.value]
  case sind => exact degrees_congr (fun _ _ => sine_congr) hx.value
  case asin => exact arcsine_congr hx.value
  case asind => exact checked_bind_congr (arcsine_congr hx.value) fun _ _ _ _ => toDegrees_congr
  case cos => rw [cosine_congr hx.value]
  case cosd => exact degrees_congr (fun _ _ => cosine_congr) hx.value
  case acos => rw [arccosine_congr hx.value]
  case acosd => rw [arccosineDegrees, arccosineDegrees, arccosine_congr hx.value]
  case tan => rw [tangent_congr hx]
  case tand => exact tangentDegrees_congr hx
  case atan => exact arctangent_congr hx.value
  case atand => exact checked_bind_congr (arctangent_congr hx.value) fun _ _ _ _ => toDegrees_congr
  case ln => rw [naturalLog_congr hx.value]
  case log => rw [decimalLog_congr hx.value]
  case abs => exact congrArg Except.ok hx.abs.value

theorem binary_congr {op : Operator} {compute : Decimal → Decimal → Checked}
    (h : op.meaning = .binary compute) {x x' y y' : Decimal} (hx : Same x x') (hy : Same y y') :
    (compute x y).map value = (compute x' y').map value := by
  cases op <;> cases h
  case less => simp only [less, Decimal.lt_congr hx.value hy.value]
  case greater => simp only [greater, Decimal.lt_congr hy.value hx.value]
  case equal => simp only [equal, Decimal.eqv_congr hx.value hy.value]
  case unequal => simp only [unequal, Decimal.eqv_congr hx.value hy.value]
  case both => simp only [both, isTrue_congr hx.value, isTrue_congr hy.value]
  case either => simp only [either, isTrue_congr hx.value, isTrue_congr hy.value]
  case add => exact check_congr _ (Decimal.add_congr _ hx.value hy.value)
  case subtract => exact check_congr _ (Decimal.sub_congr _ hx.value hy.value)
  case multiply => exact multiply_congr hx.value hy.value
  case divide => exact divide_congr hx hy
  case remainder => exact remainder_congr hx.value hy.value
  case power => exact power_congr hx hy.value

theorem respectsValues : RespectsValues where
  unary := unary_congr
  binary := binary_congr
  angles hx := ⟨toRadians_congr hx.value, toDegrees_congr hx.value⟩
  isTrue hx := isTrue_congr hx.value
  display hx places := Decimal.display?_congr places hx.value

end Abacus.Numeric
