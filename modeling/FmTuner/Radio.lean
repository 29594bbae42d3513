import FmTuner.Request

/-!
# What a radio looks like from outside

The operating state, the attributes that operations change, and the snapshot that is published
after every step.
-/

namespace FmTuner

inductive RadioState where
  | invalid
  | idle
  /-- Only reported as the activity of a start in flight. -/
  | starting
  | started
  | paused
  | scanning
  | error
  deriving DecidableEq, Repr, Inhabited

def RadioState.name : RadioState → String
  | .invalid => "Invalid"
  | .idle => "Idle"
  | .starting => "Starting"
  | .started => "Started"
  | .paused => "Paused"
  | .scanning => "Scanning"
  | .error => "Error"

structure Station where
  freq : Freq
  signal : UInt8
  deriving DecidableEq, Repr

/-- The search threshold of a radio that has just been started. -/
def defaultThreshold : Nat := 500

structure Attributes where
  band : Band := .europeUs
  /-- The last known tuned frequency. -/
  frequency : Option Freq := none
  threshold : Nat := defaultThreshold
  forceMono : Bool := false
  signalStrength : Option UInt8 := none
  stereo : Bool := false
  autoAfSwitch : Bool := false
  autoTaSwitch : Bool := false
  /-- The stations of the current or last full scan, in the order in which it met them. -/
  stations : List Station := []
  deriving DecidableEq, Repr

namespace Attributes

/-- The attributes after a start on `band`: both switches and the stations stay. -/
def restarted (a : Attributes) (band : Band) : Attributes :=
  { a with
    band := band
    frequency := none
    threshold := defaultThreshold
    forceMono := false
    signalStrength := none
    stereo := false }

def isTunedToChannel (a : Attributes) : Bool :=
  a.frequency.any a.band.isValid

end Attributes

/-- A consistent view of the radio. -/
structure Snapshot where
  state : RadioState := .invalid
  /-- The state, except while a start is in flight. -/
  activity : RadioState := .invalid
  /-- The name of the operation in flight. -/
  pending : Option String := none
  attributes : Attributes := {}
  deriving DecidableEq, Repr

end FmTuner
