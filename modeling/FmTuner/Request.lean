import FmTuner.Band

/-!
# Requests

An operation is what the radio is asked to do. Clients may ask for all of them except the three
that drive a running scan, which the controller asks of itself.
-/

namespace FmTuner

inductive ScanMode where
  | up
  | down
  | full
  deriving DecidableEq, Repr

inductive Direction where
  | up
  | down
  deriving DecidableEq, Repr

inductive Operation where
  | start (band : Band)
  | reset
  | pause
  | resume
  | setFrequency (f : Freq)
  | scanUp
  | scanDown
  | fullScan
  | stopScan
  | setThreshold (value : Nat)
  | setForceMono (on : Bool)
  | setAutoAfSwitch (on : Bool)
  | setAutoTaSwitch (on : Bool)
  /-- Reads the search status of a running scan. -/
  | pollScan (mode : ScanMode)
  /-- Continues a full scan from the next channel. -/
  | scanStep
  /-- Reports the results of a scan and tunes to the final frequency. -/
  | scanDone (mode : ScanMode) (aborted : Bool)
  deriving DecidableEq, Repr

namespace Operation

def name : Operation → String
  | .start _ => "start"
  | .reset => "reset"
  | .pause => "pause"
  | .resume => "resume"
  | .setFrequency _ => "set-frequency"
  | .scanUp => "scan-up"
  | .scanDown => "scan-down"
  | .fullScan => "full-scan"
  | .stopScan => "stop-scan"
  | .setThreshold _ => "set-threshold"
  | .setForceMono _ => "set-force-mono"
  | .setAutoAfSwitch _ => "set-auto-af-switch"
  | .setAutoTaSwitch _ => "set-auto-ta-switch"
  | .pollScan _ => "poll-scan"
  | .scanStep => "scan-step"
  | .scanDone .. => "scan-done"

def scanMode : Operation → Option ScanMode
  | .scanUp => some .up
  | .scanDown => some .down
  | .fullScan => some .full
  | _ => none

/-- Whether an operation is one that clients ask for. -/
def isClient : Operation → Bool
  | .pollScan _ | .scanStep | .scanDone .. => false
  | _ => true

def isStart : Operation → Bool
  | .start _ => true
  | _ => false

end Operation

/-- Tells the requests of clients apart. -/
abbrev RequestId := Nat

/-- An operation asked for, by a client if there is an identifier. -/
structure Request where
  id : Option RequestId
  operation : Operation
  deriving DecidableEq, Repr

inductive Outcome where
  /-- Every command succeeded. -/
  | done
  /-- Aborted without error; the radio is where it was. -/
  | cancelled
  /-- Refused by the hardware; the radio is where it was. -/
  | failed
  /-- A protocol violation; the radio is in the error state. -/
  | error
  /-- No response in time; the radio is in the error state. -/
  | timedOut
  /-- Legal in the current state, with nothing to do. -/
  | ignored
  /-- Not accepted in the current state. -/
  | notHandled
  deriving DecidableEq, Repr

namespace Outcome

def isSuccess : Outcome → Bool
  | .done | .ignored => true
  | _ => false

def title : Outcome → String
  | .done => "Done"
  | .cancelled => "Cancelled"
  | .failed => "Failed"
  | .error => "Error"
  | .timedOut => "TimedOut"
  | .ignored => "Ignored"
  | .notHandled => "NotHandled"

def name : Outcome → String
  | .done => "done"
  | .cancelled => "cancelled"
  | .failed => "failed"
  | .error => "error"
  | .timedOut => "timed-out"
  | .ignored => "ignored"
  | .notHandled => "not-handled"

end Outcome

end FmTuner
