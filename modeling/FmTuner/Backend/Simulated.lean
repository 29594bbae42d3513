import FmTuner.Backend.Registry
import FmTuner.Chip

/-!
# The simulated backend

A simulated tuner is a chip whose answers arrive after a fixed latency. It is the one built-in
backend.
-/

namespace FmTuner

structure SimulatedTuner where
  chip : Chip
  latency : Nat
  deriving DecidableEq, Repr

namespace SimulatedTuner

def ofSettings (settings : ChipSettings) : SimulatedTuner :=
  { chip := Chip.ofSettings settings, latency := settings.latency }

/-- Makes a call. The link accepts it if the chip does, unless the answer would have to be taken at
once and nobody is listening. -/
def call (t : SimulatedTuner) (listening : Bool) (c : Call) :
    SimulatedTuner × Bool × Option Callback :=
  match t.chip.call c with
  | some (chip, answer) =>
      if t.latency = 0 ∧ !listening then ({ t with chip }, false, none)
      else ({ t with chip }, true, some answer)
  | none => (t, false, none)

end SimulatedTuner

/-- A simulated tuner with a clock and with its answers underway. -/
structure TunerLine where
  tuner : SimulatedTuner
  now : Nat := 0
  /-- Whether anybody takes the answers. -/
  listening : Bool := true
  /-- The answers underway with the times of their arrival. As all take equally long, they arrive in
  the order in which they were given. -/
  underway : List (Nat × Callback) := []
  deriving DecidableEq, Repr

namespace TunerLine

/-- Makes a call. Tells whether it was accepted, and the answer if that is there at once. -/
def call (l : TunerLine) (c : Call) : TunerLine × Bool × List Callback :=
  let (tuner, accepted, answer) := l.tuner.call l.listening c
  let answers := answer.toList
  if tuner.latency = 0 then ({ l with tuner }, accepted, answers)
  else
    let underway := l.underway ++ answers.map (l.now + tuner.latency, ·)
    ({ l with tuner, underway }, accepted, [])

/-- Lets time pass, and gives the answers that have arrived by then if anybody takes them. -/
def sleep (l : TunerLine) (ms : Nat) : TunerLine × List Callback :=
  let now := l.now + ms
  let (arrived, underway) := l.underway.span fun (due, _) ↦ due ≤ now
  ({ l with now, underway }, if l.listening then arrived.map Prod.snd else [])

def close (l : TunerLine) : TunerLine := { l with listening := false }

end TunerLine

namespace Backend

/-- Opens a backend with the settings of the simulated chip. -/
abbrev Factory := ChipSettings → Except BackendError SimulatedTuner

def simulated : Factory := fun settings ↦ .ok (SimulatedTuner.ofSettings settings)

def addBuiltin (r : Registry Factory) : Registry Factory := r.register "sim" simulated

def builtin : Registry Factory := addBuiltin {}

end Backend

end FmTuner
