import FmTuner.Controller.Route
import FmTuner.Plan

/-!
# The radio controller

The controller owns the operating state, the one transition in flight and the queue of requests.
It neither sleeps nor starts anything by itself: it is stepped by events, and what it wants done
comes out as effects.
-/

namespace FmTuner

/-- A request in the queue with its place in the order of arrival. -/
structure Queued where
  ticket : Nat
  request : Request
  deriving DecidableEq, Repr

inductive Event where
  /-- The hardware is up; consumed once. -/
  | ready
  | request (r : Request)
  | callback (c : Callback)
  /-- The budget of a transition ran out. -/
  | timeout (pending : Nat)
  /-- A poll scheduled under a generation is due. -/
  | pollDue (generation : Nat)
  deriving DecidableEq, Repr

/-- What the surroundings have to do for the controller. -/
inductive Effect where
  | notify (n : Notification)
  /-- Deliver the timeout of a transition after a time, in place of any timeout armed before. -/
  | armTimeout (pending after : Nat)
  | disarmTimeout
  /-- Deliver the callback of an elapsed delay after a time. -/
  | armDelay (after : Nat)
  /-- Deliver a due poll of a generation after a time. -/
  | schedulePoll (generation after : Nat)
  /-- Report how a client's request ended. -/
  | complete (id : RequestId) (outcome : Outcome)
  deriving DecidableEq, Repr

structure Pending where
  id : Nat
  request : Option RequestId
  action : Action
  /-- Where the radio stays when the action is cancelled or fails. -/
  source : RadioState
  /-- Where the radio goes when the action is done. -/
  destination : RadioState
  signalBefore : Option UInt8
  stereoBefore : Bool
  deriving DecidableEq, Repr

structure Controller where
  timing : Timing
  state : RadioState := .invalid
  pending : Option Pending := none
  /-- Requests that wait, in order of arrival. -/
  queue : List Queued := []
  attributes : Attributes := {}
  scanMode : Option ScanMode := none
  /-- Polls scheduled under an earlier generation are stale. -/
  generation : Nat := 0
  begun : Nat := 0
  changes : Nat := 0
  arrivals : Nat := 0
  deriving DecidableEq, Repr

namespace Controller

/-- A controller that waits for the hardware. -/
def initial (timing : Timing) : Controller := { timing }

/-- Whether the current state makes a queued request wait. -/
def defers (c : Controller) (q : Queued) : Bool :=
  route c.state q.request.operation = .defer

/-- The state, except that a start in flight counts as starting. -/
def activity (c : Controller) : RadioState :=
  if c.pending.any fun p ↦ p.action.operation.isStart then .starting else c.state

def snapshot (c : Controller) : Snapshot where
  state := c.state
  activity := c.activity
  pending := c.pending.map fun p ↦ p.action.operation.name
  attributes := c.attributes

end Controller

/-- Something that happened during a step. -/
inductive Entry where
  | queued (q : Queued)
  /-- A request left the queue, past others that the controller defers. -/
  | dispatched (q : Queued) (passed : List Queued) (controller : Controller)
  /-- A transition began; the controller is that from just before. -/
  | begun (p : Pending) (controller : Controller)
  | exchanged (x : Exchange)
  /-- A transition ended; the controller is that from just after. -/
  | resolved (p : Pending) (timedOut : Bool) (controller : Controller)
  | effect (e : Effect)
  deriving DecidableEq, Repr

namespace Entry

def effect? : Entry → Option Effect
  | .effect e => some e
  | _ => none

def sent? : Entry → Option (Call × Bool)
  | .exchanged x => x.sent
  | _ => none

end Entry

/-- Everything that happened during a step, in order. -/
abbrev Journal := List Entry

namespace Journal

def effects (j : Journal) : List Effect := j.filterMap Entry.effect?

/-- The calls made to the chip, each with the answer of the link. -/
def sent (j : Journal) : List (Call × Bool) := j.filterMap Entry.sent?

def notifications (j : Journal) : List Notification :=
  j.effects.filterMap fun | .notify n => some n | _ => none

@[simp] theorem effects_nil : effects [] = [] := rfl

@[simp] theorem effects_append (j k : Journal) : effects (j ++ k) = effects j ++ effects k := by
  simp [effects]

@[simp] theorem sent_nil : sent [] = [] := rfl

@[simp] theorem sent_append (j k : Journal) : sent (j ++ k) = sent j ++ sent k := by
  simp [sent]

end Journal

/-- A step that a fault has cut short, with the state in which it left the radio. -/
structure Crash where
  fault : Fault
  state : RadioState
  deriving DecidableEq, Repr

end FmTuner
