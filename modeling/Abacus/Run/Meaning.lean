import Abacus.Numeric.Power
import Abacus.Numeric.Trigonometry
import Abacus.Script.Operator

/-!
What each operator computes.
-/
namespace Abacus

inductive Meaning where
  | assignment
  | unary (compute : Decimal → Numeric.Checked)
  | binary (compute : Decimal → Decimal → Numeric.Checked)

namespace Operator

def meaning : Operator → Meaning
  | assign => .assignment
  | less => .binary fun x y => .ok (Numeric.less x y)
  | greater => .binary fun x y => .ok (Numeric.greater x y)
  | equal => .binary fun x y => .ok (Numeric.equal x y)
  | unequal => .binary fun x y => .ok (Numeric.unequal x y)
  | both => .binary fun x y => .ok (Numeric.both x y)
  | either => .binary fun x y => .ok (Numeric.either x y)
  | add => .binary Numeric.add
  | subtract => .binary Numeric.subtract
  | multiply => .binary Numeric.multiply
  | divide => .binary Numeric.divide
  | remainder => .binary Numeric.remainder
  | power => .binary Numeric.power
  | negate => .unary Numeric.negate
  | complement => .unary fun x => .ok (Numeric.complement x)
  | sin => .unary Numeric.sine
  | sind => .unary Numeric.sineDegrees
  | asin => .unary Numeric.arcsine
  | asind => .unary Numeric.arcsineDegrees
  | cos => .unary Numeric.cosine
  | cosd => .unary Numeric.cosineDegrees
  | acos => .unary Numeric.arccosine
  | acosd => .unary Numeric.arccosineDegrees
  | tan => .unary Numeric.tangent
  | tand => .unary Numeric.tangentDegrees
  | atan => .unary Numeric.arctangent
  | atand => .unary Numeric.arctangentDegrees
  | ln => .unary Numeric.naturalLog
  | log => .unary Numeric.decimalLog
  | abs => .unary fun x => .ok (Numeric.absolute x)

end Operator

end Abacus
