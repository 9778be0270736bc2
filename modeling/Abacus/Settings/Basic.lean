/-!
The limits and the display setting of a session.
-/
namespace Abacus

structure Settings where
  /-- Rounds that one run of a loop may take. -/
  loopLimit : Nat := 1000000
  /-- Calls that may be active at the same time. -/
  callLimit : Nat := 500
  /-- Decimal places of values that are shown; `Decimal.display?` says how many are meant. -/
  displayPlaces : Nat := 6
deriving DecidableEq, Repr

end Abacus
