import FmTuner.Config.Basic
import FmTuner.Toml.Document
import FmTuner.Toml.Printer

/-!
# The configuration file

The settings stand in a section of a TOML file, grouped into tables. Settings that are missing have
their defaults and unknown ones are passed over, but a value of the wrong type or size spoils the
whole file.
-/

namespace FmTuner

/-- Why no configuration could be had from a file. -/
inductive ConfigError where
  | unreadable
  | malformed
  | missingSection
  deriving DecidableEq, Repr

namespace Config

open Toml (Value)

def sectionName : String := "fmrx-server"

/-- The settings of a group, by name or by their place in a list. -/
inductive Group where
  | named (fields : List (String × Value))
  | listed (items : List Value)

namespace Group

/-- A group is a table or a list. A date counts as a table without settings. -/
def ofValue : Value → Option Group
  | .table fields => some (.named fields)
  | .array items => some (.listed items)
  | .datetime _ => some (.named [])
  | _ => none

def find? (g : Group) (place : Nat) (name : String) : Option Value :=
  match g with
  | .named fields => fields.lookup name
  | .listed items => items[place]?

/-- Reads a setting, which has a default if it is missing. -/
def get {α : Type} (g : Group) (place : Nat) (name : String) (read : Value → Option α)
    (default : α) : Option α :=
  match g.find? place name with
  | some v => read v
  | none => some default

def require {α : Type} (g : Group) (place : Nat) (name : String) (read : Value → Option α) :
    Option α :=
  g.find? place name >>= read

end Group

/-! ## Values of settings -/

def readString : Value → Option String
  | .string s => some s
  | _ => none

def readBool : Value → Option Bool
  | .boolean b => some b
  | _ => none

def readNat (bits : Nat) : Value → Option Nat
  | .integer i => if 0 ≤ i ∧ i < Nat.pow 2 bits then some i.toNat else none
  | _ => none

def readStation (v : Value) : Option Transmitter := do
  let g ← Group.ofValue v
  let khz ← g.require 0 "khz" (readNat 32)
  let rssi ← g.require 1 "rssi" (readNat 8)
  let stereo ← g.get 2 "stereo" readBool false
  some ⟨khz, UInt8.ofNat rssi, stereo⟩

def readStations : Value → Option (List Transmitter)
  | .array items => items.mapM readStation
  | _ => none

def readTiming (v : Value) : Option Timing := do
  let g ← Group.ofValue v
  let d : Timing := {}
  let startTimeout ← g.get 0 "start_timeout_ms" (readNat 64) d.startTimeout
  let resetTimeout ← g.get 1 "reset_timeout_ms" (readNat 64) d.resetTimeout
  let propertyTimeout ← g.get 2 "property_timeout_ms" (readNat 64) d.propertyTimeout
  let settleDelay ← g.get 3 "settle_delay_ms" (readNat 64) d.settleDelay
  let pollInterval ← g.get 4 "scan_poll_interval_ms" (readNat 64) d.pollInterval
  let maxStations ← g.get 5 "max_stations" (readNat 64) d.maxStations
  some { startTimeout, resetTimeout, propertyTimeout, settleDelay, pollInterval, maxStations }

def readChip (v : Value) : Option ChipSettings := do
  let g ← Group.ofValue v
  let d : ChipSettings := {}
  let stations ← g.get 0 "stations" readStations d.stations
  let latency ← g.get 1 "latency_ms" (readNat 64) d.latency
  let searchPolls ← g.get 2 "search_polls" (readNat 32) d.searchPolls
  some { stations, latency, searchPolls }

def readLogLevel (v : Value) : Option (Option String) := do
  let g ← Group.ofValue v
  g.get 0 "log_level" (fun v ↦ (readString v).map some) none

def readTuner (v : Value) : Option (String × String) := do
  let g ← Group.ofValue v
  let d : Config := {}
  some (← g.get 0 "backend" readString d.backend, ← g.get 1 "band" readString d.bandName)

def ofFields (fields : List (String × Value)) : Option Config := do
  let g := Group.named fields
  let d : Config := {}
  let logLevel ← g.get 0 "general" readLogLevel d.logLevel
  let (backend, bandName) ← g.get 1 "tuner" readTuner (d.backend, d.bandName)
  let timing ← g.get 2 "timing" readTiming d.timing
  let chip ← g.get 3 "sim" readChip d.chip
  some { logLevel, backend, bandName, timing, chip }

/-- Reads the section of a file, if the file has it. -/
def section? (text : String) : Except ConfigError (Option Config) :=
  match Toml.parse? text with
  | none => .error .malformed
  | some document =>
      match document.lookup sectionName with
      | none => .ok none
      | some (.table fields) =>
          match ofFields fields with
          | some c => .ok (some c)
          | none => .error .malformed
      | some _ => .error .malformed

def ofText (text : String) : Except ConfigError Config :=
  match section? text with
  | .ok (some c) => .ok c
  | .ok none => .error .missingSection
  | .error e => .error e

/-! ## Files -/

/-- Loads the configuration from a named file. -/
def load {m : Type → Type} [Monad m] (read : String → m (Option String)) (path : String) :
    m (Except ConfigError Config) := do
  match ← read path with
  | some text => return ofText text
  | none => return .error .unreadable

/-- Loads the configuration from the first of several files that has the section, with the path
where it was found. Files that do not exist are passed over. -/
def search {m : Type → Type} [Monad m] (read : String → m (Option String)) :
    List String → m (Except ConfigError (Config × Option String))
  | [] => return .ok ({}, none)
  | path :: rest => do
      match ← read path with
      | none => search read rest
      | some text =>
          match section? text with
          | .ok (some c) => return .ok (c, some path)
          | .ok none => search read rest
          | .error e => return .error e

/-! ## The example file -/

def sample : Config where
  logLevel := some "info"
  chip :=
    { stations := [⟨94000, 50, true⟩, ⟨102400, 35, false⟩]
      latency := 20
      searchPolls := 2 }

def toFields (c : Config) : List (String × Value) :=
  let num (n : Nat) : Value := .integer n
  let station (s : Transmitter) : Value :=
    .table [("khz", num s.khz), ("rssi", num s.rssi.toNat), ("stereo", .boolean s.stereo)]
  [("general", .table (c.logLevel.toList.map fun l ↦ ("log_level", .string l))),
    ("tuner", .table [("backend", .string c.backend), ("band", .string c.bandName)]),
    ("timing", .table
      [("start_timeout_ms", num c.timing.startTimeout),
        ("reset_timeout_ms", num c.timing.resetTimeout),
        ("property_timeout_ms", num c.timing.propertyTimeout),
        ("settle_delay_ms", num c.timing.settleDelay),
        ("scan_poll_interval_ms", num c.timing.pollInterval),
        ("max_stations", num c.timing.maxStations)]),
    ("sim", .table
      [("stations", .array (c.chip.stations.map station)),
        ("latency_ms", num c.chip.latency),
        ("search_polls", num c.chip.searchPolls)])]

def fileText (c : Config) : String :=
  String.join ((Toml.documentLines [(sectionName, .table c.toFields)]).map (· ++ "\n"))

end Config

end FmTuner
