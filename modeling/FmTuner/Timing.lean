import FmTuner.Request

/-!
# Budgets and pauses

All durations are whole milliseconds.
-/

namespace FmTuner

structure Timing where
  startTimeout : Nat := 5000
  resetTimeout : Nat := 5000
  /-- The budget of every operation that is neither a start nor a reset. -/
  propertyTimeout : Nat := 2000
  /-- The pause between enabling the data decoder and configuring the band. -/
  settleDelay : Nat := 500
  /-- The pause before the search status is read. -/
  pollInterval : Nat := 100
  /-- The number of stations that ends a full scan. -/
  maxStations : Nat := 50
  deriving DecidableEq, Repr

def Timing.budget (t : Timing) : Operation → Nat
  | .start _ => t.startTimeout
  | .reset => t.resetTimeout
  | _ => t.propertyTimeout

end FmTuner
