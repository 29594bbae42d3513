import FmTuner.CommandLine
import FmTuner.Config.Basic
import FmTuner.Service.Basic

/-!
# Starting up

What the command line and the configuration together say: an option overrides the setting of the
same name.
-/

namespace FmTuner

inductive StartupError where
  | unknownBackend (key : String) (available : List String)
  | bandOption (e : BandError)
  | config (e : ConfigFault)
  /-- The frequency to tune to is no channel of the band. -/
  | noChannel (khz : Nat) (band : Band)
  deriving DecidableEq, Repr

def StartupError.message : StartupError → String
  | .unknownBackend key available =>
      s!"Unknown tuner backend: {key} (available: {String.intercalate separator available})"
  | .bandOption e => e.message
  | .config e => e.message
  | .noChannel khz band =>
      s!"--tune {khz} is not a channel of the {band.min.khz}..{band.max.khz} kHz band"
where
  separator : String := ", "

structure Startup where
  backend : String
  band : Band
  deriving DecidableEq, Repr

namespace Startup

def chooseBand (o : Options) (c : Config) : Except StartupError Band :=
  match o.band with
  | some name => (Band.ofName name).mapError .bandOption
  | none => c.band.mapError .config

/-- Merges options and configuration. The backend must be registered, and a frequency to tune to
must be a channel of the band. -/
def resolve {α : Type} (o : Options) (c : Config) (registry : Registry α) :
    Except StartupError Startup :=
  let backend := Backend.key (o.backend.getD c.backend)
  if !registry.isRegistered backend then .error (.unknownBackend backend registry.names)
  else do
    let band ← chooseBand o c
    match o.tune with
    | some khz =>
        if band.isValid ⟨khz⟩ then .ok { backend, band } else .error (.noChannel khz band)
    | none => .ok { backend, band }

def serviceSettings (s : Startup) (c : Config) : ServiceSettings :=
  { backend := s.backend, timing := c.timing, chip := c.chip }

end Startup

end FmTuner
