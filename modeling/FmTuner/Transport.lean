/-!
# The link to the tuner chip

`Call` is what the controller asks of the chip, `Callback` what it hears from it. A call is
accepted or refused at once; its result arrives later as a callback.
-/

namespace FmTuner

inductive Call where
  | power (on : Bool)
  | vendor (opcode : UInt8) (payload : List UInt8)
  deriving DecidableEq, Repr

/-- A report from the chip, or from the timer that stands in for it during a delay. -/
inductive Callback where
  | powerState (payload : List UInt8)
  | delayElapsed
  | vendor (opcode : UInt16) (payload : List UInt8)
  deriving DecidableEq, Repr

def Callback.power (on : Bool) : Callback :=
  .powerState [if on then 1 else 0]

end FmTuner
