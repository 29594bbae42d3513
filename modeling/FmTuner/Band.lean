import FmTuner.Fault
import FmTuner.Text.Blank

/-!
# Frequencies and bands

A band is an interval of frequencies with a grid of channels: its lower limit and every whole
number of spacings above it, up to the upper limit. `Band.snap` rounds to the grid,
`Band.nextChannel` walks it, `Band.channelCount` counts it and `Band.isValid` recognises it.
-/

namespace FmTuner

/-- A broadcast frequency in kHz. -/
structure Freq where
  khz : Nat
  deriving DecidableEq, Repr, Inhabited

namespace Freq

/-- The frequency that the chip's frequency register counts from, in kHz. -/
def registerBase : Nat := 64000

/-- The value for the frequency register: what the register cannot express is clamped to it. -/
def toRegister (f : Freq) : UInt16 :=
  UInt16.ofNat (min (f.khz - registerBase) 65535)

def ofRegister (raw : UInt16) : Freq :=
  ⟨raw.toNat + registerBase⟩

/-- The frequency in MHz with three decimals. -/
def text (f : Freq) : String :=
  s!"{f.khz / 1000}.{f.khz / 100 % 10}{f.khz / 10 % 10}{f.khz % 10} MHz"

end Freq

inductive Region where
  | europeUs
  | japan
  deriving DecidableEq, Repr, Inhabited

/-- A receivable band: inclusive limits and channel spacing. -/
structure Band where
  min : Freq
  max : Freq
  spacing : Nat
  region : Region
  deriving DecidableEq, Repr

inductive BandError where
  | unknownPreset (name : String)
  deriving DecidableEq, Repr

def BandError.message : BandError → String
  | .unknownPreset name => s!"unknown band preset '{name}'"

namespace Band

def europeUs : Band := ⟨⟨87500⟩, ⟨108000⟩, 100, .europeUs⟩

def us : Band := ⟨⟨87900⟩, ⟨107900⟩, 200, .europeUs⟩

def japan : Band := ⟨⟨76000⟩, ⟨90000⟩, 100, .japan⟩

instance : Inhabited Band := ⟨europeUs⟩

/-- Whether a frequency is a channel: inside the limits and on the grid. -/
def isValid (b : Band) (f : Freq) : Bool :=
  b.min.khz ≤ f.khz && f.khz ≤ b.max.khz && 0 < b.spacing && (f.khz - b.min.khz) % b.spacing == 0

/-- The channel nearest to a frequency, a half spacing rounding up. There is none when the nearest
point of the grid lies outside the limits. -/
def snap (b : Band) (raw : Freq) : Except Fault (Option Freq) :=
  if b.spacing = 0 then .ok none
  else do
    let shifted ← Word.add raw.khz (b.spacing / 2)
    if shifted < b.min.khz then .ok none
    else
      let offset ← Word.sub shifted b.min.khz
      let span ← Word.mul (offset / b.spacing) b.spacing
      let khz ← Word.add b.min.khz span
      .ok (if b.isValid ⟨khz⟩ then some ⟨khz⟩ else none)

/-- One spacing further up, while that is inside the limits. -/
def nextChannel (b : Band) (f : Freq) : Except Fault (Option Freq) := do
  let khz ← Word.add f.khz b.spacing
  .ok (if khz ≤ b.max.khz then some ⟨khz⟩ else none)

def channelCount (b : Band) : Except Fault Nat :=
  if b.spacing = 0 then .ok 0
  else do
    let width ← Word.sub b.max.khz b.min.khz
    Word.add (width / b.spacing) 1

/-- The spelling under which preset names are compared: trimmed, in lower case, with hyphens. -/
def presetKey (name : String) : String :=
  (Text.lower (Text.trim name)).map fun c ↦ if c = '_' then '-' else c

def ofName (name : String) : Except BandError Band :=
  match presetKey name with
  | "europe-us" | "europe" | "eu" => .ok europeUs
  | "us" => .ok us
  | "japan" | "jp" => .ok japan
  | other => .error (.unknownPreset other)

theorem isValid_iff {b : Band} {f : Freq} :
    b.isValid f = true ↔
      b.min.khz ≤ f.khz ∧ f.khz ≤ b.max.khz ∧ 0 < b.spacing ∧
        (f.khz - b.min.khz) % b.spacing = 0 := by
  simp [isValid, and_assoc]

end Band

end FmTuner
