import Abacus.Run.Meaning

/-!
Which errors arithmetic reports: those of the operation itself, and never that of a limit.
-/
namespace Abacus.Numeric

/-- The result is no value only for a reason that has a place in the source. -/
def Ordinary (r : Checked) : Prop := ∀ kind, r = .error kind → kind.isFatal = false

theorem ordinary_ok (x : Decimal) : Ordinary (.ok x) := by
  rintro kind ⟨⟩

theorem ordinary_error {kind : ErrorKind} (h : kind.isFatal = false) : Ordinary (.error kind) := by
  rintro _ ⟨⟩
  exact h

theorem ordinary_check {kind : ErrorKind} (h : kind.isFatal = false) (o : Option Decimal) :
    Ordinary (check kind o) := by
  cases o with
  | none => exact ordinary_error h
  | some x => exact ordinary_ok x

theorem Ordinary.bind {r : Checked} (h : Ordinary r) {f : Decimal → Checked}
    (hf : ∀ x, Ordinary (f x)) : Ordinary (r >>= f) := by
  cases r with
  | error kind => exact ordinary_error (h kind rfl)
  | ok x => exact hf x

theorem divide_ordinary (x y : Decimal) : Ordinary (divide x y) := by
  unfold divide
  split
  · exact ordinary_error rfl
  · exact ordinary_check rfl _

theorem remainder_ordinary (x y : Decimal) : Ordinary (remainder x y) := by
  unfold remainder
  simp only
  split
  · exact ordinary_error rfl
  split
  · exact ordinary_check rfl _
  split
  · exact ordinary_check rfl _
  · exact ordinary_error rfl

theorem power_ordinary (base x : Decimal) : Ordinary (power base x) := by
  unfold power
  split
  · split
    · exact ordinary_ok _
    split
    · exact ordinary_error rfl
    · exact ordinary_ok _
  split
  · exact ordinary_error rfl
  split
  · exact ordinary_ok _
  · exact ordinary_check rfl _

theorem logarithm_ordinary (f : Decimal → Option Decimal) (x : Decimal) :
    Ordinary (if Decimal.zero.lt x then check .math (f x) else .error .math) := by
  split
  · exact ordinary_check rfl _
  · exact ordinary_error rfl

/-! ### Angles -/

theorem sine_ordinary (x : Decimal) : Ordinary (sine x) := by
  unfold sine
  split
  · exact ordinary_ok _
  · exact ordinary_check rfl _

theorem tangentOf_ordinary (x : Decimal) : Ordinary (tangentOf x) := by
  unfold tangentOf
  split
  · exact ordinary_ok _
  · exact ordinary_check rfl _

theorem tangent_ordinary (x : Decimal) : Ordinary (tangent x) := by
  unfold tangent
  split
  · exact ordinary_error rfl
  · exact tangentOf_ordinary x

theorem arcsine_ordinary (x : Decimal) : Ordinary (arcsine x) := by
  unfold arcsine
  simp only
  split
  · exact ordinary_ok _
  split
  · exact ordinary_error rfl
  · exact ordinary_check rfl _

theorem arccosine_ordinary (x : Decimal) : Ordinary (arccosine x) := by
  unfold arccosine
  simp only
  split
  · exact ordinary_error rfl
  split
  · exact ordinary_ok _
  · exact ordinary_check rfl _

theorem arctangent_ordinary (x : Decimal) : Ordinary (arctangent x) := by
  unfold arctangent
  simp only
  split
  · exact ordinary_ok _
  · exact ordinary_check rfl _

theorem tangentDegrees_ordinary (x : Decimal) : Ordinary (tangentDegrees x) := by
  unfold tangentDegrees
  split
  · exact ordinary_error rfl
  · exact Ordinary.bind (ordinary_check rfl _) tangentOf_ordinary

end Abacus.Numeric

namespace Abacus.Operator

open Numeric

theorem unary_ordinary {op : Operator} {compute : Decimal → Checked}
    (h : op.meaning = .unary compute) (x : Decimal) : Ordinary (compute x) := by
  cases op <;> cases h
  case negate => exact ordinary_check rfl _
  case sin => exact sine_ordinary x
  case sind => exact Ordinary.bind (ordinary_check rfl _) sine_ordinary
  case asin => exact arcsine_ordinary x
  case asind => exact (arcsine_ordinary x).bind fun y => ordinary_check rfl _
  case cos => exact ordinary_check rfl _
  case cosd => exact Ordinary.bind (ordinary_check rfl _) fun y => ordinary_check rfl _
  case acos => exact arccosine_ordinary x
  case acosd => exact (arccosine_ordinary x).bind fun y => ordinary_check rfl _
  case tan => exact tangent_ordinary x
  case tand => exact tangentDegrees_ordinary x
  case atan => exact arctangent_ordinary x
  case atand => exact (arctangent_ordinary x).bind fun y => ordinary_check rfl _
  case ln => exact logarithm_ordinary _ x
  case log => exact logarithm_ordinary _ x
  all_goals exact ordinary_ok _

theorem binary_ordinary {op : Operator} {compute : Decimal → Decimal → Checked}
    (h : op.meaning = .binary compute) (x y : Decimal) : Ordinary (compute x y) := by
  cases op <;> cases h
  case divide => exact divide_ordinary x y
  case remainder => exact remainder_ordinary x y
  case power => exact power_ordinary x y
  case add | subtract | multiply => exact ordinary_check rfl _
  all_goals exact ordinary_ok _

end Abacus.Operator
