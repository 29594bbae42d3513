import FmTuner.Backend.Simulated
import FmTuner.Timing

/-!
# The configuration of the daemon

Every setting has a default. `Config.validate` names the first one that cannot be used.
-/

namespace FmTuner

structure Config where
  logLevel : Option String := none
  backend : String := "sim"
  bandName : String := "europe-us"
  timing : Timing := {}
  chip : ChipSettings := {}
  deriving DecidableEq, Repr

/-- Why a configuration cannot be used. -/
inductive ConfigFault where
  | logLevel (level : String)
  | emptyBackend
  | band (e : BandError)
  /-- The setting of a given name is zero. -/
  | notPositive (setting : String)
  | longSettleDelay
  | manyStations (count channels : Nat) (bandName : String)
  /-- The station at an index of the list has no frequency. -/
  | silentStation (index : Nat)
  deriving DecidableEq, Repr

def ConfigFault.message : ConfigFault → String
  | .logLevel level =>
      s!"[general].log_level '{level}' is invalid (expected one of: trace, debug, info, warn, error)"
  | .emptyBackend => "[tuner].backend must not be empty"
  | .band e => s!"[tuner].band: {e.message}"
  | .notPositive setting => s!"[timing].{setting} must be > 0"
  | .longSettleDelay =>
      "[timing].settle_delay_ms must be shorter than [timing].start_timeout_ms"
  | .manyStations count channels bandName =>
      s!"[timing].max_stations {count} exceeds the {channels} channels of band {bandName}"
  | .silentStation index => s!"[[sim.stations]] entry {index} has khz = 0"

namespace Config

def levelNames : List String := ["trace", "debug", "info", "warn", "error"]

def band (c : Config) : Except ConfigFault Band :=
  (Band.ofName c.bandName).mapError .band

def ensure (condition : Bool) (fault : ConfigFault) : Except ConfigFault Unit :=
  if condition then .ok () else .error fault

def validateLogLevel (c : Config) : Except ConfigFault Unit :=
  match c.logLevel with
  | some level => ensure (levelNames.contains level) (.logLevel level)
  | none => .ok ()

def validateTiming (t : Timing) : Except ConfigFault Unit := do
  ensure (t.startTimeout ≠ 0) (.notPositive "start_timeout_ms")
  ensure (t.resetTimeout ≠ 0) (.notPositive "reset_timeout_ms")
  ensure (t.propertyTimeout ≠ 0) (.notPositive "property_timeout_ms")
  ensure (t.settleDelay < t.startTimeout) .longSettleDelay
  ensure (t.pollInterval ≠ 0) (.notPositive "scan_poll_interval_ms")
  ensure (t.maxStations ≠ 0) (.notPositive "max_stations")

/-- Refuses a station limit that no full scan of the band could reach. The presets have a channel
count, so the bound is never missing. -/
def validateLimit (c : Config) (band : Band) : Except ConfigFault Unit :=
  let channels := band.channelCount.toOption.getD 0
  ensure (c.timing.maxStations ≤ channels)
    (.manyStations c.timing.maxStations channels c.bandName)

def validateStations (stations : List Transmitter) : Except ConfigFault Unit :=
  match stations.findIdx? fun s ↦ s.khz = 0 with
  | some index => .error (.silentStation index)
  | none => .ok ()

/-- Checks the settings in a fixed order; the first fault found is the one reported. -/
def validate (c : Config) : Except ConfigFault Unit := do
  c.validateLogLevel
  ensure (Text.trim c.backend ≠ "") .emptyBackend
  let band ← c.band
  validateTiming c.timing
  c.validateLimit band
  validateStations c.chip.stations

end Config

end FmTuner
