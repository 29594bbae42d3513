import FmTuner.Controller.Basic

/-!
# Turns

A turn is a step in progress: the controller so far and the journal of what has happened. The
operations here are the moves that a step is made of.
-/

namespace FmTuner

structure Turn where
  radio : Controller
  journal : Journal := []
  deriving DecidableEq, Repr

/-- The reason given when the radio enters the idle state. -/
def forcedResetNormal : Nat := 0

namespace Turn

def note (t : Turn) (e : Entry) : Turn := { t with journal := t.journal ++ [e] }

def emit (t : Turn) (e : Effect) : Turn := t.note (.effect e)

def notify (t : Turn) (n : Notification) : Turn := t.emit (.notify n)

def report (t : Turn) (id : Option RequestId) (outcome : Outcome) : Turn :=
  match id with
  | some id => t.emit (.complete id outcome)
  | none => t

def enqueue (t : Turn) (request : Request) : Turn :=
  let q : Queued := { ticket := t.radio.arrivals, request }
  { t with
    radio.queue := t.radio.queue ++ [q]
    radio.arrivals := t.radio.arrivals + 1
    journal := t.journal ++ [.queued q] }

/-- Takes over what an action did: its exchanges, the delays that began with them, the attributes
and the operations that follow. -/
def absorb (t : Turn) (p : Progress) : Turn :=
  let t : Turn :=
    { t with
      radio.attributes := p.attributes
      journal := t.journal ++ p.exchanges.map .exchanged ++
        p.delays.map fun ms ↦ .effect (.armDelay ms) }
  p.followups.foldl (fun t operation ↦ t.enqueue { id := none, operation }) t

def announce (t : Turn) (old new : RadioState) : Turn :=
  let t := t.notify (.stateChanged old new)
  match new with
  | .idle => t.notify (.forcedReset forcedResetNormal)
  | .error => t.notify .error
  | _ => t

/-- Enters a state. Entering the scanning state, also from itself, schedules a poll; entering any
other ends the scan. -/
def enter (t : Turn) (target : RadioState) : Turn :=
  let old := t.radio.state
  let t :=
    if target = old then t
    else
      Turn.announce
        { t with radio.state := target, radio.changes := t.radio.changes + 1 } old target
  if target = .scanning then
    t.emit (.schedulePoll t.radio.generation t.radio.timing.pollInterval)
  else { t with radio.scanMode := none }

/-- Where a transition ends, and what is reported of it. -/
def resolution (p : Pending) (timedOut : Bool) : RadioState × Outcome :=
  match p.action.status with
  | .done => (p.destination, .done)
  | .cancel => (p.source, .cancelled)
  | .fail => (p.source, .failed)
  | .error | .idle | .running => (.error, if timedOut then .timedOut else .error)

def announceReadings (t : Turn) (p : Pending) : Turn :=
  let attributes := t.radio.attributes
  let t :=
    match attributes.signalStrength with
    | some level =>
        if p.signalBefore = some level then t else t.notify (.signalStrengthChanged level)
    | none => t
  if p.stereoBefore = attributes.stereo then t else t.notify (.stereoChanged attributes.stereo)

/-- Ends a transition, which is no longer in flight. -/
def resolve (t : Turn) (p : Pending) (armed timedOut : Bool) : Turn :=
  let t := if armed then t.emit .disarmTimeout else t
  let done := p.action.status = .done
  let (target, outcome) := resolution p timedOut
  let t : Turn :=
    match p.action.operation.scanMode with
    | some mode => if done then { t with radio.scanMode := some mode } else t
    | none => t
  let t := t.enter target
  let t := if done ∧ p.action.operation.isStart then t.notify .started else t
  let t := t.announceReadings p
  let t := t.note (.resolved p timedOut t.radio)
  t.report p.request outcome

/-- Begins a transition. Polls scheduled before this point become stale. -/
def begin (accepts : Call → Bool) (t : Turn) (request : Request) (destination : RadioState)
    (plan : Plan) : Except Crash Turn :=
  let p : Pending :=
    { id := t.radio.begun + 1
      request := request.id
      action := plan.action
      source := t.radio.state
      destination
      signalBefore := t.radio.attributes.signalStrength
      stereoBefore := t.radio.attributes.stereo }
  let t := t.note (.begun p t.radio)
  let t : Turn :=
    { t with
      radio.generation := t.radio.generation + 1
      radio.begun := t.radio.begun + 1
      journal := t.journal ++ plan.notices.map fun n ↦ .effect (.notify n) }
  match p.action.execute accepts t.radio.attributes with
  | .error e => .error ⟨e.fault, t.radio.state⟩
  | .ok progress =>
      let p := { p with action := progress.action }
      let t := t.absorb progress
      if p.action.status.isTerminal then .ok (t.resolve p false false)
      else
        let budget := t.radio.timing.budget request.operation
        .ok (Turn.emit { t with radio.pending := some p } (.armTimeout p.id budget))

def dispatch (accepts : Call → Bool) (t : Turn) (request : Request) : Except Crash Turn :=
  match route t.radio.state request.operation with
  | .defer => .ok (t.enqueue request)
  | .ignore => .ok (t.report request.id .ignored)
  | .reject => .ok (t.report request.id .notHandled)
  | .accept destination =>
      match Plan.build t.radio.timing request.operation t.radio.attributes t.radio.scanMode with
      | .error fault => .error ⟨fault, t.radio.state⟩
      | .ok none => .ok (t.report request.id .notHandled)
      | .ok (some plan) => t.begin accepts request destination plan

/-- Dispatches queued requests, at most `fuel` of them, until a transition is in flight or all that
are left have to wait. Each time the first request goes that need not wait. -/
def drainWith (accepts : Call → Bool) : Nat → Turn → Except Crash Turn
  | 0, t => .ok t
  | fuel + 1, t =>
      if t.radio.pending.isSome then .ok t
      else
        match t.radio.queue.dropWhile t.radio.defers with
        | [] => .ok t
        | q :: rest => do
            let passed := t.radio.queue.takeWhile t.radio.defers
            let t := t.note (.dispatched q passed t.radio)
            let t ← Turn.dispatch accepts { t with radio.queue := passed ++ rest } q.request
            drainWith accepts fuel t

/-- Dispatches queued requests. No dispatch out of the queue makes it longer, so as many rounds as
it has requests are enough. -/
def drain (accepts : Call → Bool) (t : Turn) : Except Crash Turn :=
  t.drainWith accepts t.radio.queue.length

/-- Hands a callback to the transition in flight. -/
def hear (accepts : Call → Bool) (t : Turn) (callback : Callback) : Except Crash Turn :=
  match t.radio.pending with
  | none => .ok t
  | some p =>
      match p.action.hear accepts callback t.radio.attributes with
      | .error e => .error ⟨e.fault, t.radio.state⟩
      | .ok progress =>
          let p := { p with action := progress.action }
          let t := t.absorb progress
          if p.action.status.isTerminal then
            .ok (Turn.resolve { t with radio.pending := none } p true false)
          else .ok { t with radio.pending := some p }

/-- Ends the transition in flight, if the timeout is its own. -/
def expire (t : Turn) (pending : Nat) : Except Crash Turn :=
  match t.radio.pending with
  | none => .ok t
  | some p =>
      if p.id ≠ pending then .ok t
      else
        match p.action.abort .error t.radio.attributes with
        | .error e => .error ⟨e.fault, t.radio.state⟩
        | .ok progress =>
            let p := { p with action := progress.action }
            let t := t.absorb progress
            .ok (Turn.resolve { t with radio.pending := none } p true true)

/-- Begins a poll, if the one that is due is not stale. -/
def poll (accepts : Call → Bool) (t : Turn) (generation : Nat) : Except Crash Turn :=
  if generation ≠ t.radio.generation ∨ t.radio.pending.isSome ∨ t.radio.state ≠ .scanning then
    .ok t
  else
    match t.radio.scanMode with
    | none => .ok t
    | some mode => t.dispatch accepts { id := none, operation := .pollScan mode }

end Turn

end FmTuner
