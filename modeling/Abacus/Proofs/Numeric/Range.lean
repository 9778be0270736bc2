import Abacus.Proofs.Decimal.Range
import Abacus.Run.Meaning

/-!
Checked arithmetic stays within the calculator's format.

Most operations end by rounding into the format. The others return a constant, a power of one, the
exponent of a power of ten, an operand without its sign, or a result that is padded with zeros to
full length, and these fit too.
-/
namespace Abacus.Numeric

open Format (calculator calculator_proper calculator_fits_iff settle_fits round_fits)

/-- A computation whose result, if there is one, fits the calculator's format. -/
def InRange (r : Checked) : Prop := ∀ x, r = .ok x → calculator.Fits x

theorem inRange_ok {x : Decimal} (h : calculator.Fits x) : InRange (.ok x) := by
  rintro y ⟨⟩
  exact h

theorem inRange_error (kind : ErrorKind) : InRange (.error kind) := by
  rintro y ⟨⟩

theorem inRange_check (kind : ErrorKind) {o : Option Decimal}
    (h : ∀ x, o = some x → calculator.Fits x) : InRange (check kind o) := by
  cases o with
  | none => exact inRange_error kind
  | some x => exact inRange_ok (h x rfl)

theorem inRange_bind (r : Checked) {f : Decimal → Checked} (h : ∀ x, InRange (f x)) :
    InRange (r >>= f) := by
  cases r with
  | error kind => exact inRange_error kind
  | ok x => exact h x

/-! ### Constants -/

theorem fits_zero (negative : Bool) {e : Int} (hleast : -55 ≤ e) (hgreatest : e ≤ 28) :
    calculator.Fits ⟨negative, 0, e⟩ := by
  refine calculator_fits_iff.mpr ⟨Nat.pow_pos (by decide), hleast, ?_⟩
  simp only [Decimal.adjusted, digitCount_zero]
  omega

theorem fits_one : calculator.Fits .one := by
  refine calculator_fits_iff.mpr ⟨by decide, by decide, ?_⟩
  rw [Decimal.adjusted, digitCount_of_lt (by decide)]
  decide

theorem fits_ofBool (b : Bool) : calculator.Fits (.ofBool b) := by
  cases b with
  | false => exact fits_zero false (by decide) (by decide)
  | true => exact fits_one

theorem fits_pi : calculator.Fits pi := by
  refine calculator_fits_iff.mpr ⟨by decide, by decide, ?_⟩
  have hdigits : digitCount pi.coefficient ≤ 28 := (digitCount_le_iff (by decide)).mpr (by decide)
  have hexponent : pi.exponent = -27 := rfl
  rw [Decimal.adjusted, hexponent]
  omega

/-! ### Arithmetic -/

theorem literal_inRange (whole fraction : List Char) : InRange (literal whole fraction) :=
  inRange_check _ fun _ h => round_fits calculator_proper h

theorem add_inRange (x y : Decimal) : InRange (add x y) :=
  inRange_check _ fun _ h => settle_fits calculator_proper h

theorem subtract_inRange (x y : Decimal) : InRange (subtract x y) :=
  inRange_check _ fun _ h => settle_fits calculator_proper h

theorem multiply_inRange (x y : Decimal) : InRange (multiply x y) :=
  inRange_check _ fun _ h => settle_fits calculator_proper h

theorem div_fits {x y z : Decimal} (h : x.div calculator y = some z) : calculator.Fits z := by
  unfold Decimal.div at h
  simp only at h
  split at h
  · exact settle_fits calculator_proper h
  split at h
  · exact round_fits calculator_proper h
  · exact settle_fits calculator_proper h

theorem divide_inRange (x y : Decimal) : InRange (divide x y) := by
  unfold divide
  split
  · exact inRange_error _
  · exact inRange_check _ fun _ h => div_fits h

theorem remainder_inRange (x y : Decimal) : InRange (remainder x y) := by
  unfold remainder
  simp only
  split
  · exact inRange_error _
  split
  · exact inRange_check _ fun _ h => settle_fits calculator_proper h
  split
  · refine inRange_check _ fun z h => ?_
    obtain ⟨w, -, hw⟩ := Option.bind_eq_some_iff.mp h
    exact round_fits calculator_proper hw
  · exact inRange_error _

/-! ### Logarithms -/

/-- A value that is decided is one of those that the ends of an enclosure round to. -/
theorem decideAt_of {α : Type} [DecidableEq α] (holds : α → Prop)
    (approximate : Nat → Option Enclosure) {round : Int → Nat → α}
    (hround : ∀ v places, holds (round v places)) (ps : List Nat) {undecided : α}
    (hundecided : holds undecided) :
    holds (Enclosure.decideAt approximate round ps undecided) := by
  induction ps generalizing undecided with
  | nil => exact hundecided
  | cons places rest ih =>
    unfold Enclosure.decideAt
    split
    · exact ih hundecided
    · simp only
      split
      · exact hround _ _
      · exact ih (hround _ _)

theorem enclosure_fits {approximate : Nat → Option Enclosure} {x : Decimal}
    (h : Enclosure.settle calculator approximate = some x) : calculator.Fits x := by
  refine decideAt_of (fun o => ∀ y, o = some y → calculator.Fits y) approximate ?_ _ ?_ x h
  · intro v places y hy
    exact settle_fits calculator_proper hy
  · rintro y ⟨⟩

theorem lnIn_fits {x y : Decimal} (h : lnIn calculator x = some y) : calculator.Fits y := by
  unfold lnIn at h
  split at h
  · cases h
    exact fits_zero false (by decide) (by decide)
  · exact enclosure_fits h

theorem strip_exponent (limit : Nat) (x : Decimal) :
    x.exponent ≤ (x.strip limit).exponent ∧ (x.strip limit).exponent ≤ x.exponent + limit := by
  induction limit generalizing x with
  | zero => exact ⟨Int.le_refl _, by simp [Decimal.strip]⟩
  | succ limit ih =>
    unfold Decimal.strip
    split
    · have := ih ⟨x.negative, x.coefficient / 10, x.exponent + 1⟩
      simp only at this
      omega
    · omega

/-- The exponent of a shortest representation is a number of at most two digits. -/
theorem reduce_exponent {x : Decimal} (h : calculator.Fits x) :
    -55 ≤ x.reduce.exponent ∧ x.reduce.exponent ≤ 29 := by
  have hleast : -55 ≤ x.exponent := h.least
  have hgreatest : x.adjusted ≤ 28 := h.greatest
  have hstrip := strip_exponent (digitCount x.coefficient) x
  unfold Decimal.reduce
  split
  · exact ⟨by decide, by decide⟩
  · simp only [Decimal.adjusted] at hgreatest
    omega

theorem fits_ofInt {n : Int} (h : n.natAbs < 100) : calculator.Fits (.ofInt n) := by
  have hdigits : digitCount n.natAbs ≤ 2 := (digitCount_le_iff (by decide)).mpr h
  refine calculator_fits_iff.mpr ⟨Nat.lt_trans h (by decide), ?_, ?_⟩
  · simp only [Decimal.ofInt]
    omega
  · simp only [Decimal.adjusted, Decimal.ofInt]
    omega

theorem log10In_fits {x y : Decimal} (hx : calculator.Fits x) (h : log10In calculator x = some y) :
    calculator.Fits y := by
  unfold log10In at h
  simp only at h
  split at h
  · cases h
    have := reduce_exponent hx
    exact fits_ofInt (by omega)
  · exact enclosure_fits h

theorem naturalLog_inRange (x : Decimal) : InRange (naturalLog x) := by
  unfold naturalLog
  split
  · exact inRange_check _ fun _ h => lnIn_fits h
  · exact inRange_error _

theorem decimalLog_inRange {x : Decimal} (hx : calculator.Fits x) : InRange (decimalLog x) := by
  unfold decimalLog
  split
  · exact inRange_check _ fun _ h => log10In_fits hx h
  · exact inRange_error _

/-! ### Powers -/

theorem powInteger_fits {base x y : Decimal} (h : powInteger base x = some y) :
    calculator.Fits y := by
  unfold powInteger at h
  simp only at h
  split at h
  all_goals
    obtain ⟨t, -, h⟩ := Option.bind_eq_some_iff.mp h
    obtain ⟨r, -, h⟩ := Option.bind_eq_some_iff.mp h
    exact round_fits calculator_proper h

theorem powOne_fits (base x : Decimal) : calculator.Fits (powOne base x) := by
  have hplaces : ∀ places : Nat, places ≤ 27 →
      calculator.Fits ⟨false, 10 ^ places, -(places : Int)⟩ := by
    intro places hle
    have hdigits : digitCount (10 ^ places) = 1 + places := by
      rw [← Nat.one_mul (10 ^ places), digitCount_mul_pow (by decide), digitCount_of_lt (by decide)]
    refine calculator_fits_iff.mpr ⟨?_, ?_, ?_⟩
    · exact Nat.pow_lt_pow_right (by decide) (by omega)
    · simp only
      omega
    · simp only [Decimal.adjusted, hdigits]
      omega
  unfold powOne
  simp only
  refine hplaces _ ?_
  split
  · decide
  split
  · decide
  · exact Nat.min_le_left _ _

theorem fullLength_fits {x : Decimal} (h : calculator.Fits x) :
    calculator.Fits (fullLength calculator x) := by
  have hdigits := h.digits
  have hgreatest := h.greatest
  unfold fullLength
  simp only
  split
  · exact h
  next hpad =>
    simp only [Bool.or_eq_true, decide_eq_true_eq, not_or, Decimal.isZero, beq_iff_eq] at hpad
    have hcount := digitCount_mul_pow hpad.1
    simp only [Decimal.adjusted] at hgreatest
    refine ⟨?_, ?_, ?_⟩
    · simp only [hcount]
      omega
    · simp only
      omega
    · simp only [Decimal.adjusted, hcount]
      omega

theorem powReal_fits {base x y : Decimal} (h : powReal base x = some y) : calculator.Fits y := by
  unfold powReal at h
  obtain ⟨l, -, h⟩ := Option.bind_eq_some_iff.mp h
  obtain ⟨m, -, h⟩ := Option.bind_eq_some_iff.mp h
  obtain ⟨r, -, h⟩ := Option.bind_eq_some_iff.mp h
  obtain ⟨z, hz, h⟩ := Option.bind_eq_some_iff.mp h
  cases h
  exact fullLength_fits (round_fits calculator_proper hz)

theorem powMagnitude_fits {base x y : Decimal} (h : powMagnitude base x = some y) :
    calculator.Fits y := by
  unfold powMagnitude at h
  split at h
  · cases h
    exact powOne_fits _ _
  split at h
  · exact powInteger_fits h
  · exact powReal_fits h

theorem power_inRange (base x : Decimal) : InRange (power base x) := by
  unfold power
  split
  · split
    · exact inRange_ok fits_one
    split
    · exact inRange_error _
    · exact inRange_ok (fits_zero false (by decide) (by decide))
  split
  · exact inRange_error _
  split
  · exact inRange_ok fits_one
  · refine inRange_check _ fun y h => ?_
    obtain ⟨z, hz, rfl⟩ := Option.map_eq_some_iff.mp h
    have hfits := powMagnitude_fits hz
    exact ⟨hfits.digits, hfits.least, hfits.greatest⟩

/-! ### Angles -/

theorem forward_inRange (function : Nat → Int → Nat → Option Enclosure) (x : Decimal) :
    InRange (forward function x) := by
  refine inRange_check _ fun y h => ?_
  obtain ⟨v, -, hv⟩ := Option.bind_eq_some_iff.mp h
  exact round_fits calculator_proper hv

theorem sine_inRange (x : Decimal) : InRange (sine x) := by
  unfold sine
  split
  · exact inRange_ok (fits_zero false (by decide) (by decide))
  · exact forward_inRange _ x

theorem tangentOf_inRange (x : Decimal) : InRange (tangentOf x) := by
  unfold tangentOf
  split
  · exact inRange_ok (fits_zero false (by decide) (by decide))
  · exact forward_inRange _ x

theorem tangent_inRange (x : Decimal) : InRange (tangent x) := by
  unfold tangent
  split
  · exact inRange_error _
  · exact tangentOf_inRange x

theorem tangentDegrees_inRange (x : Decimal) : InRange (tangentDegrees x) := by
  unfold tangentDegrees
  split
  · exact inRange_error _
  · exact inRange_bind _ tangentOf_inRange

theorem arcsine_inRange (x : Decimal) : InRange (arcsine x) := by
  unfold arcsine
  simp only
  split
  · exact inRange_ok (fits_zero _ (by decide) (by decide))
  split
  · exact inRange_error _
  · exact inRange_check _ fun _ h => round_fits calculator_proper h

theorem arccosine_inRange (x : Decimal) : InRange (arccosine x) := by
  unfold arccosine
  simp only
  split
  · exact inRange_error _
  split
  · exact inRange_ok (fits_zero false (by decide) (by decide))
  · exact inRange_check _ fun _ h => round_fits calculator_proper h

theorem arctangent_inRange (x : Decimal) : InRange (arctangent x) := by
  unfold arctangent
  simp only
  split
  · exact inRange_ok (fits_zero _ (by decide) (by decide))
  · exact inRange_check _ fun _ h => round_fits calculator_proper h

end Abacus.Numeric

namespace Abacus.Operator

open Format (calculator)
open Numeric

/-- Operands that fit the calculator's format give a result that does. -/
theorem unary_inRange {op : Operator} {compute : Decimal → Checked}
    (h : op.meaning = .unary compute) {x : Decimal} (hx : calculator.Fits x) :
    InRange (compute x) := by
  cases op <;> cases h
  case negate => exact multiply_inRange x _
  case complement => exact inRange_ok (fits_ofBool _)
  case sin => exact sine_inRange x
  case sind => exact inRange_bind _ sine_inRange
  case asin => exact arcsine_inRange x
  case asind => exact inRange_bind _ fun y => multiply_inRange y _
  case cos => exact forward_inRange _ x
  case cosd => exact inRange_bind _ fun y => forward_inRange _ y
  case acos => exact arccosine_inRange x
  case acosd => exact inRange_bind _ fun y => multiply_inRange y _
  case tan => exact tangent_inRange x
  case tand => exact tangentDegrees_inRange x
  case atan => exact arctangent_inRange x
  case atand => exact inRange_bind _ fun y => multiply_inRange y _
  case ln => exact naturalLog_inRange x
  case log => exact decimalLog_inRange hx
  case abs => exact inRange_ok hx.abs

theorem binary_inRange {op : Operator} {compute : Decimal → Decimal → Checked}
    (h : op.meaning = .binary compute) (x y : Decimal) : InRange (compute x y) := by
  cases op <;> cases h
  case add => exact add_inRange x y
  case subtract => exact subtract_inRange x y
  case multiply => exact multiply_inRange x y
  case divide => exact divide_inRange x y
  case remainder => exact remainder_inRange x y
  case power => exact power_inRange x y
  all_goals exact inRange_ok (fits_ofBool _)

end Abacus.Operator
