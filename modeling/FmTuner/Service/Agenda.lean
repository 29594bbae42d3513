import FmTuner.Controller.Basic

/-!
# Agendas

An agenda holds what comes due at later times, the earliest first; what is due at the same time
comes in the order in which it was put down.
-/

namespace FmTuner

inductive Alarm where
  /-- The budget of a transition has run out. -/
  | timeout (pending : Nat)
  | delay
  | poll (generation : Nat)
  /-- An answer of the chip arrives. -/
  | answer (c : Callback)
  deriving DecidableEq, Repr

namespace Alarm

def event : Alarm → Event
  | .timeout pending => .timeout pending
  | .delay => .callback .delayElapsed
  | .poll generation => .pollDue generation
  | .answer c => .callback c

def isTimeout : Alarm → Bool
  | .timeout _ => true
  | _ => false

end Alarm

structure Appointment where
  due : Nat
  alarm : Alarm
  deriving DecidableEq, Repr

abbrev Agenda := List Appointment

namespace Agenda

/-- Puts an appointment behind all that are due no later. -/
def add (a : Appointment) (agenda : Agenda) : Agenda :=
  agenda.takeWhile (fun b ↦ b.due ≤ a.due) ++ a :: agenda.dropWhile fun b ↦ b.due ≤ a.due

def disarm (agenda : Agenda) : Agenda :=
  agenda.filter fun a ↦ !a.alarm.isTimeout

end Agenda

end FmTuner
