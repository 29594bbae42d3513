import FmTuner.Register
import FmTuner.Text.Bytes
import FmTuner.Transport

/-!
# The simulated chip

A register-level model of the tuner: a register file, a fixed list of transmitters and the engine
that tunes and searches. Every accepted call is answered by one callback of the shape that the
controller expects; a refused call changes nothing.
-/

namespace FmTuner

/-- A transmitter that the chip can receive. -/
structure Transmitter where
  khz : Nat
  rssi : UInt8
  stereo : Bool := false
  deriving DecidableEq, Repr

structure ChipSettings where
  stations : List Transmitter :=
    [⟨88100, 45, true⟩, ⟨91500, 30, false⟩, ⟨95800, 62, true⟩, ⟨101100, 40, true⟩,
      ⟨104300, 25, false⟩]
  /-- The delay before each answer, in milliseconds. -/
  latency : Nat := 0
  /-- How many status reads find a new search still busy. -/
  searchPolls : Nat := 1
  deriving DecidableEq, Repr

/-- The level received where no station transmits. -/
def noiseFloor : UInt8 := 8

structure Chip where
  /-- The transmitters by frequency; those of one frequency in the order of the settings. -/
  stations : List Transmitter
  searchPolls : Nat
  powered : Bool := false
  registers : Vector UInt16 32 := Vector.replicate 32 0
  tuned : Freq := Band.europeUs.min
  /-- Whether the frequency register was written since the chip last tuned or searched. -/
  frequencyWritten : Bool := false
  flags : UInt16 := 0
  /-- How many further status reads find the search busy. -/
  busyReads : Nat := 0
  deriving DecidableEq, Repr

namespace Chip

def ofSettings (settings : ChipSettings) : Chip where
  stations := settings.stations.mergeSort fun s t ↦ s.khz ≤ t.khz
  searchPolls := settings.searchPolls

/-- Switches the power. Without power the registers, the flags and a busy search are lost. -/
def power (c : Chip) (on : Bool) : Chip :=
  if on then { c with powered := true }
  else
    { c with
      powered := false
      registers := Vector.replicate 32 0
      flags := 0
      busyReads := 0 }

def register? (c : Chip) (address : UInt8) : Option UInt16 := c.registers[address.toNat]?

def register (c : Chip) (address : UInt8) : UInt16 := (c.register? address).getD 0

def band (c : Chip) : Band :=
  if c.register Register.fmControl &&& 1 = 0 then .europeUs else .japan

def stationAt? (c : Chip) (f : Freq) : Option Transmitter :=
  c.stations.find? fun s ↦ s.khz = f.khz

def rssiAt (c : Chip) (f : Freq) : UInt8 :=
  match c.stationAt? f with
  | some s => s.rssi
  | none => noiseFloor

def stereoFlagAt (c : Chip) (f : Freq) : UInt16 :=
  match c.stationAt? f with
  | some s => if s.stereo then Register.stereoFlag else 0
  | none => 0

/-! ## Tuning and searching -/

def tunePreset (c : Chip) : Chip :=
  let f := Freq.ofRegister (c.register Register.frequency)
  { c with
    tuned := f
    frequencyWritten := false
    flags := Register.finishedFlag ||| c.stereoFlagAt f
    busyReads := 0 }

/-- Where a search begins, where it goes and where it stops. -/
structure Search where
  up : Bool
  level : UInt8
  start : Freq
  /-- Whether a station on the starting frequency counts. -/
  inclusive : Bool
  band : Band
  deriving DecidableEq, Repr

/-- The search that the registers ask for. It starts on the frequency register if that was
written, and beyond the tuned frequency otherwise. -/
def search (c : Chip) : Search :=
  let control := c.register Register.searchControl
  { up := control &&& Register.upBit.toUInt16 ≠ 0
    level := (control &&& Register.levelMask.toUInt16).toUInt8
    start :=
      if c.frequencyWritten then Freq.ofRegister (c.register Register.frequency) else c.tuned
    inclusive := c.frequencyWritten
    band := c.band }

namespace Search

/-- Whether a station lies where the search is going. -/
def ahead (q : Search) (s : Transmitter) : Bool :=
  (if q.up then q.start.khz < s.khz else s.khz < q.start.khz) ||
    (q.inclusive && s.khz == q.start.khz)

def stopsOn (q : Search) (s : Transmitter) : Bool :=
  q.ahead s && q.level ≤ s.rssi && q.band.min.khz ≤ s.khz && s.khz ≤ q.band.max.khz

/-- The first station, in the direction of the search, on which it stops. -/
def find? (q : Search) (stations : List Transmitter) : Option Transmitter :=
  (if q.up then stations else stations.reverse).find? q.stopsOn

/-- The limit of the band that a search without success ends on. -/
def edge (q : Search) : Freq := if q.up then q.band.max else q.band.min

end Search

/-- Searches for the next station. Without one the chip ends on the edge of its band, with the
failure flag. -/
def autoSearch (c : Chip) : Chip :=
  let q := c.search
  let (tuned, flags) :=
    match q.find? c.stations with
    | some s => ((⟨s.khz⟩ : Freq), Register.finishedFlag ||| c.stereoFlagAt ⟨s.khz⟩)
    | none => (q.edge, Register.finishedFlag ||| Register.failedFlag)
  { c with tuned, flags, frequencyWritten := false, busyReads := c.searchPolls }

/-- Carries out the low byte of the search and tune mode. Unknown modes do nothing. -/
def searchTune (c : Chip) (mode : UInt8) : Chip :=
  if mode = Register.preset then c.tunePreset
  else if mode = Register.autoSearch then c.autoSearch
  else if mode = Register.terminate then
    { c with flags := Register.finishedFlag, busyReads := 0 }
  else c

/-! ## Register access -/

/-- Writes a register, with the effect that the register has. -/
def write (c : Chip) (address : UInt8) (value : UInt16) : Option Chip :=
  if h : address.toNat < 32 then
    let c := { c with registers := c.registers.set address.toNat value h }
    if address = Register.frequency then some { c with frequencyWritten := true }
    else if address = Register.searchTuneMode then some (c.searchTune value.toUInt8)
    else some c
  else none

/-- Reads a register. Reading the flags of a busy search counts it down. -/
def read (c : Chip) (address : UInt8) : Option (Chip × UInt16) :=
  if address = Register.frequency then some (c, c.tuned.toRegister)
  else if address = Register.signal then some (c, (c.rssiAt c.tuned).toUInt16)
  else if address = Register.flags then
    if 0 < c.busyReads then some ({ c with busyReads := c.busyReads - 1 }, 0)
    else some (c, c.flags)
  else (c.register? address).map (c, ·)

/-- The value that one or two written bytes stand for. -/
def valueOf? : List UInt8 → Option UInt16
  | [low] => some (Bytes.toWord low 0)
  | [low, high] => some (Bytes.toWord low high)
  | _ => none

/-- Carries out one vendor operation; none means that the chip refuses it. -/
def command (c : Chip) (opcode : UInt8) (payload : List UInt8) : Option (Chip × Callback) :=
  if !c.powered || opcode != Register.accessOpcode then none
  else
    match payload with
    | address :: access :: data =>
        if access = Register.writeAccess then do
          let value ← valueOf? data
          let c ← c.write address value
          some (c, .vendor Register.confirmOpcode [0, address, Register.writeAccess])
        else if access = Register.readAccess then
          match data with
          | [length] =>
              if 1 ≤ length ∧ length ≤ 2 then do
                let (c, value) ← c.read address
                some (c, .vendor Register.confirmOpcode
                  ([0, address, Register.readAccess] ++ (Bytes.ofWord value).take length.toNat))
              else none
          | _ => none
        else none
    | _ => none

/-- Carries out any call. The power can always be switched. -/
def call (c : Chip) : Call → Option (Chip × Callback)
  | .power on => some (c.power on, .power on)
  | .vendor opcode payload => c.command opcode payload

def accepts (c : Chip) (call : Call) : Bool := (c.call call).isSome

/-- Carries out the calls of a step that the link accepted. -/
def serve (c : Chip) : List (Call × Bool) → Chip × List Callback
  | [] => (c, [])
  | (call, accepted) :: rest =>
      match if accepted then c.call call else none with
      | some (c, answer) =>
          let (c, answers) := c.serve rest
          (c, answer :: answers)
      | none => c.serve rest

end Chip

end FmTuner
