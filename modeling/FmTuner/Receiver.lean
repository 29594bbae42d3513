import FmTuner.Chip
import FmTuner.Controller.Step

/-!
# Receivers

A receiver is a controller wired to a chip. The calls of a step that are accepted are carried out
by the chip; its answers are callbacks that the controller has yet to hear.
-/

namespace FmTuner

structure Receiver where
  radio : Controller
  chip : Chip
  deriving DecidableEq, Repr

namespace Receiver

structure Reaction where
  receiver : Receiver
  journal : Journal
  /-- The answers of the chip, one for every call that it carried out. -/
  answers : List Callback
  deriving DecidableEq, Repr

/-- Steps the controller with an event. A call is accepted if both the link and the chip take
it. -/
def step (link : Call → Bool) (r : Receiver) (event : Event) : Except Crash Reaction := do
  let turn ← r.radio.step (fun call ↦ link call && r.chip.accepts call) event
  let (chip, answers) := r.chip.serve turn.journal.sent
  return { receiver := { radio := turn.radio, chip }, journal := turn.journal, answers }

theorem step_ok {link : Call → Bool} {r : Receiver} {event : Event} {reaction : Reaction}
    (h : r.step link event = .ok reaction) :
    ∃ turn, r.radio.step (fun call ↦ link call && r.chip.accepts call) event = .ok turn ∧
      reaction =
        { receiver := { radio := turn.radio, chip := (r.chip.serve turn.journal.sent).1 }
          journal := turn.journal
          answers := (r.chip.serve turn.journal.sent).2 } := by
  simp only [step, bind, Except.bind] at h
  split at h
  next => simp at h
  next turn hturn => exact ⟨turn, hturn, (Except.ok.inj h).symm⟩

end Receiver

end FmTuner
