import FmTuner.Radio

/-!
# The transition table

For every state and operation, whether the operation is carried out, needs nothing, has to wait or
is refused.
-/

namespace FmTuner

inductive Route where
  /-- Carry the operation out and end in the given state. -/
  | accept (destination : RadioState)
  /-- Legal, with nothing to do. -/
  | ignore
  /-- Keep the request until the radio is in a state that accepts it. -/
  | defer
  | reject
  deriving DecidableEq, Repr

def Operation.setsProperty : Operation → Bool
  | .setThreshold _ | .setForceMono _ | .setAutoAfSwitch _ | .setAutoTaSwitch _ => true
  | _ => false

def Route.whenIdle : Operation → Route
  | .start _ => .accept .started
  | .reset | .stopScan => .ignore
  | _ => .reject

/-- What a started and a paused radio have in common. -/
def Route.whenOn (state : RadioState) (operation : Operation) : Route :=
  match operation with
  | .reset => .accept .idle
  | .stopScan => .ignore
  | .scanUp | .scanDown | .fullScan => .accept .scanning
  | .setFrequency _ => .accept state
  | operation => if operation.setsProperty then .accept state else .reject

def Route.whenScanning : Operation → Route
  | .reset => .accept .idle
  | .scanDone .. => .accept .started
  | .stopScan | .pollScan _ | .scanStep => .accept .scanning
  | .setFrequency _ | .pause | .resume | .scanUp | .scanDown | .fullScan => .defer
  | operation => if operation.setsProperty then .accept .scanning else .reject

def route : RadioState → Operation → Route
  | .invalid, _ => .defer
  | .error, _ | .starting, _ => .reject
  | .idle, operation => .whenIdle operation
  | .started, .pause => .accept .paused
  | .started, .resume => .ignore
  | .paused, .resume => .accept .started
  | .paused, .pause => .ignore
  | .scanning, operation => .whenScanning operation
  | state, operation => .whenOn state operation

end FmTuner
