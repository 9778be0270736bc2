import Abacus.Decimal.Rounding

/-!
Fixed-point enclosures of real numbers.

At scale `s` the pair `lo, hi` stands for the real numbers from `lo / s` to `hi / s`. Every
operation rounds its lower end down and its upper end up, so the exact result of enclosed operands
stays enclosed. A value is rounded into a format by rounding both ends: if they agree, so does
every number between them.
-/
namespace Abacus

structure Enclosure where
  lo : Int
  hi : Int

namespace Enclosure

/-- `⌈n / d⌉` for a positive `d`. -/
def ceilDiv (n d : Int) : Int := -((-n) / d)

/-- The fraction `n / d`, for a positive `d`. -/
def ofRatio (s : Nat) (n : Int) (d : Nat) : Enclosure := ⟨n * s / d, ceilDiv (n * s) d⟩

def ofInt (s : Nat) (n : Int) : Enclosure := ⟨n * s, n * s⟩

def add (a b : Enclosure) : Enclosure := ⟨a.lo + b.lo, a.hi + b.hi⟩

def neg (a : Enclosure) : Enclosure := ⟨-a.hi, -a.lo⟩

def sub (a b : Enclosure) : Enclosure := a.add b.neg

/-- Multiplication by an integer is exact. -/
def times (n : Int) (a : Enclosure) : Enclosure :=
  if 0 ≤ n then ⟨n * a.lo, n * a.hi⟩ else ⟨n * a.hi, n * a.lo⟩

def mul (s : Nat) (a b : Enclosure) : Enclosure :=
  let p := a.lo * b.lo
  let q := a.lo * b.hi
  let r := a.hi * b.lo
  let t := a.hi * b.hi
  ⟨min (min p q) (min r t) / s, ceilDiv (max (max p q) (max r t)) s⟩

def square (s : Nat) (a : Enclosure) : Enclosure := mul s a a

/-- Division by a positive natural number. -/
def divNat (a : Enclosure) (n : Nat) : Enclosure := ⟨a.lo / n, ceilDiv a.hi n⟩

/-- Division by an enclosure of positive numbers; `none` if it reaches down to zero. -/
def div? (s : Nat) (a b : Enclosure) : Option Enclosure :=
  if 0 < b.lo then
    some ⟨min (a.lo * s / b.lo) (a.lo * s / b.hi),
      max (ceilDiv (a.hi * s) b.lo) (ceilDiv (a.hi * s) b.hi)⟩
  else none

/-- The largest `r` with `r ^ 2 ≤ n`. -/
def floorSqrt (n : Nat) : Nat :=
  if n < 2 then n
  else
    let r := 2 * floorSqrt (n / 4)
    if (r + 1) * (r + 1) ≤ n then r + 1 else r
termination_by n
decreasing_by omega

/-- Square root of an enclosure of non-negative numbers. -/
def sqrt (s : Nat) (a : Enclosure) : Enclosure :=
  ⟨floorSqrt (a.lo.toNat * s), floorSqrt (a.hi.toNat * s) + 1⟩

/-- The greatest magnitude in the enclosure. -/
def magnitude (a : Enclosure) : Nat := max a.lo.natAbs a.hi.natAbs

/-- The enclosure with both ends moved outwards by `n` units. -/
def widen (a : Enclosure) (n : Nat) : Enclosure := ⟨a.lo - n, a.hi + n⟩

/-- Precisions, in decimal places, at which a value is tried before it is taken to lie on the
boundary between two roundings. -/
def precisions : List Nat := [64, 160, 320, 640, 1280]

/-- Tries one precision after the other until `round` gives the same answer at both ends of the
enclosure; `round` gets an end and the number of places it is scaled by. -/
def decideAt {α : Type} [DecidableEq α] (approximate : Nat → Option Enclosure)
    (round : Int → Nat → α) : List Nat → α → α
  | [], undecided => undecided
  | places :: rest, undecided =>
    match approximate places with
    | none => decideAt approximate round rest undecided
    | some a =>
      let low := round a.lo places
      if low = round a.hi places then low else decideAt approximate round rest low

/-- The enclosed value rounded into a decimal format; `none` is overflow. -/
def settle (f : Format) (approximate : Nat → Option Enclosure) : Option Decimal :=
  decideAt approximate (fun v places => f.settleInt v (-(places : Int))) precisions none

end Enclosure

end Abacus
