import FmTuner.Controller.Turn

/-!
# Steps and runs

`Controller.step` processes one event. `accepts` answers the call that the step makes to the chip,
of which there is at most one.
-/

namespace FmTuner

namespace Turn

/-- What an event does before the queue is looked at. -/
def react (accepts : Call → Bool) (t : Turn) : Event → Except Crash Turn
  | .ready => .ok (t.enter .idle)
  | .request r => .ok (t.enqueue r)
  | .callback c => t.hear accepts c
  | .timeout id => t.expire id
  | .pollDue generation => t.poll accepts generation

end Turn

namespace Controller

/-- Processes one event. That the hardware is ready counts only once. -/
def step (accepts : Call → Bool) (c : Controller) (event : Event) : Except Crash Turn :=
  if event = .ready ∧ c.state ≠ .invalid then .ok { radio := c }
  else do
    let t ← Turn.react accepts { radio := c } event
    t.drain accepts

/-- Processes events one after another, each with its own answers of the link. -/
def run (c : Controller) : List (Event × (Call → Bool)) → Except Crash Turn
  | [] => .ok { radio := c }
  | (event, accepts) :: rest => do
      let t ← c.step accepts event
      let u ← run t.radio rest
      .ok { u with journal := t.journal ++ u.journal }

end Controller

end FmTuner
