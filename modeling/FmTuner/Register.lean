import FmTuner.Band

/-!
# Registers of the tuner chip

Addresses, the values written to them and the flags read from them.
-/

namespace FmTuner.Register

/-- The vendor operation that reads or writes one register. -/
def accessOpcode : UInt8 := 0x15

/-- The operation code under which such an access is confirmed. -/
def confirmOpcode : UInt16 := 0xfc15

def writeAccess : UInt8 := 0

def readAccess : UInt8 := 1

/-! ## Addresses -/

def rdsSystem : UInt8 := 0x00

def fmControl : UInt8 := 0x01

def audioControl : UInt8 := 0x05

def searchControl : UInt8 := 0x07

def searchTuneMode : UInt8 := 0x09

def frequency : UInt8 := 0x0a

def signal : UInt8 := 0x0f

def flags : UInt8 := 0x12

/-! ## Values -/

def rdsOff : UInt8 := 0

/-- FM reception with the data decoder. -/
def rdsOn : UInt8 := 3

def bandBits (b : Band) : UInt8 :=
  match b.region with
  | .europeUs => 0
  | .japan => 1

/-- Band bit and, unless mono is forced, automatic stereo. -/
def fmControlValue (b : Band) (forceMono : Bool) : UInt8 :=
  bandBits b ||| (if forceMono then 0 else 0x06)

/-- Routing and de-emphasis, with the manual mute when asked for. -/
def audioControlValue (muted : Bool) : UInt8 :=
  if muted then 0x63 else 0x61

/-- The signal level at which a search with a given threshold stops. -/
def searchLevel (threshold : Nat) : UInt8 :=
  UInt8.ofNat (110 - threshold / 10)

/-- The bits of the search control register that hold the level. -/
def levelMask : UInt8 := 0x7f

/-- The bit of the search control register that makes a search go up. -/
def upBit : UInt8 := 0x80

def searchControlValue (up : Bool) (threshold : Nat) : UInt8 :=
  (if up then upBit else 0) ||| (searchLevel threshold &&& levelMask)

/-! ## Search and tune modes -/

def terminate : UInt8 := 0

def preset : UInt8 := 1

def autoSearch : UInt8 := 2

/-! ## Flags -/

def finishedFlag : UInt16 := 0x0001

def failedFlag : UInt16 := 0x0002

def stereoFlag : UInt16 := 0x0040

end FmTuner.Register
