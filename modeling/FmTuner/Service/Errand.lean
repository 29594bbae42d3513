import FmTuner.CommandLine
import FmTuner.Service.Session

/-!
# Errands

What the daemon does with the radio after it has come up: a start, then the settings, the tuning
and the scan that were asked for, each only if everything before it succeeded.
-/

namespace FmTuner

inductive ErrandError where
  | radio (e : RadioError)
  /-- The service ended during the scan. -/
  | closed
  deriving DecidableEq, Repr

def ErrandError.message : ErrandError → String
  | .radio e => e.message
  | .closed => "channel closed"

inductive ErrandResult where
  | ok
  | failed (e : ErrandError)
  /-- It did not end in the time allowed. -/
  | unfinished
  deriving DecidableEq, Repr

namespace Options

def scanOperation : ScanMode → Operation
  | .up => .scanUp
  | .down => .scanDown
  | .full => .fullScan

/-- The operations that the options ask for on a band, in the order in which they are done. -/
def operations (o : Options) (band : Band) : List Operation :=
  [.start band] ++ o.threshold.toList.map .setThreshold ++
    (if o.mono then [.setForceMono true] else []) ++
    o.tune.toList.map (fun khz ↦ .setFrequency ⟨khz⟩) ++ o.scan.toList.map scanOperation

end Options

namespace Session

/-- Requests operations one after another until a given time, and stops at the first that does not
succeed. -/
def requestAll (deadline : Nat) : List Operation → Session → Session × ErrandResult
  | [], s => (s, .ok)
  | operation :: rest, s =>
      match s.request operation (deadline - s.service.now) with
      | (s, .error e) => (s, .failed (.radio e))
      | (s, .ok (.outcome o)) =>
          match o.check operation.name with
          | .ok () => requestAll deadline rest s
          | .error e => (s, .failed (.radio e))
      | (s, .ok _) => (s, .unfinished)

/-- Runs an errand, which must be over in a given time. It ends when the scan that it started has
left the scanning state. -/
def runErrand (s : Session) (o : Options) (band : Band) (ms : Nat) : Session × ErrandResult :=
  let deadline := s.service.now + ms
  match s.requestAll deadline (o.operations band) with
  | (s, .ok) =>
      if o.scan.isNone then (s, .ok)
      else
        match s.waitFor (fun p ↦ p.state ≠ .scanning) (deadline - s.service.now) with
        | (s, some true) => (s, .ok)
        | (s, some false) => (s, .unfinished)
        | (s, none) => (s, .failed .closed)
  | other => other

end Session

end FmTuner
