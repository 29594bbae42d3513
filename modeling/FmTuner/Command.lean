import FmTuner.Register
import FmTuner.Text.Bytes
import FmTuner.Text.Duration
import FmTuner.Transport

/-!
# Commands

A command is one transaction with the chip: it is sent once, and the single callback that follows
completes it. A callback whose kind, operation code or shape does not fit is a protocol error; a
fitting one may still decode to a cancelled or failed transaction.
-/

namespace FmTuner

inductive Verdict where
  | success
  | cancel
  | fail
  | error
  deriving DecidableEq, Repr

inductive Reading where
  | frequency (f : Freq)
  | signal (level : UInt8)
  | scanStatus (stereo : Bool)
  deriving DecidableEq, Repr

inductive ReadKind where
  | frequency
  | signal
  | scanStatus
  deriving DecidableEq, Repr

inductive Command where
  | power (on : Bool)
  | delay (ms : Nat)
  | write (register : UInt8) (value : List UInt8)
  | read (register length : UInt8) (kind : ReadKind) (reading : Option Reading)
  deriving DecidableEq, Repr

def ReadKind.length : ReadKind → Nat
  | .frequency => 2
  | .signal => 1
  | .scanStatus => 2

/-- Decodes the bytes of a register. A frequency is rounded to the band's grid, and a search that
is still busy or has failed gives no reading. -/
def ReadKind.decode (kind : ReadKind) (data : List UInt8) (band : Band) :
    Except Fault (Verdict × Option Reading) :=
  match kind with
  | .frequency => do
      let low ← entryAt data 0
      let high ← entryAt data 1
      match ← band.snap (Freq.ofRegister (Bytes.toWord low high)) with
      | some f => .ok (.success, some (.frequency f))
      | none => .ok (.fail, none)
  | .signal => do
      let level ← entryAt data 0
      .ok (.success, some (.signal level))
  | .scanStatus => do
      let low ← entryAt data 0
      let high ← entryAt data 1
      let flags := Bytes.toWord low high
      if flags &&& Register.finishedFlag = 0 then .ok (.cancel, none)
      else if flags &&& Register.failedFlag ≠ 0 then .ok (.fail, none)
      else .ok (.success, some (.scanStatus (flags &&& Register.stereoFlag ≠ 0)))

namespace Command

/-! ## The commands that requests are made of -/

def writeByte (register value : UInt8) : Command := .write register [value]

def writeFrequency (f : Freq) : Command :=
  .write Register.frequency (Bytes.ofWord f.toRegister)

def readFrequency : Command := .read Register.frequency 2 .frequency none

def readSignal : Command := .read Register.signal 1 .signal none

def pollStatus : Command := .read Register.flags 2 .scanStatus none

/-! ## Sending -/

def reading : Command → Option Reading
  | .read _ _ _ value => value
  | _ => none

/-- The payload that goes with the vendor operation. -/
def payload : Command → Option (List UInt8)
  | .write register value => some (register :: Register.writeAccess :: value)
  | .read register length _ _ => some [register, Register.readAccess, length]
  | _ => none

/-- The call that sends a command; a delay makes none. -/
def call : Command → Option Call
  | .power on => some (.power on)
  | .delay _ => none
  | .write register value =>
      some (.vendor Register.accessOpcode (register :: Register.writeAccess :: value))
  | .read register length _ _ =>
      some (.vendor Register.accessOpcode [register, Register.readAccess, length])

def delayMs : Command → Option Nat
  | .delay ms => some ms
  | _ => none

/-- Whether a command is taken by a link that answers calls with `accepts`. -/
def accepted (accepts : Call → Bool) (c : Command) : Bool :=
  match c.call with
  | some call => accepts call
  | none => true

/-! ## Completing -/

/-- Whether a callback has the shape that answers a read: confirmed, without an error status, from
the register read and with as many bytes as were asked for. -/
def answersRead (register length : UInt8) (opcode : UInt16) (payload : List UInt8) : Bool :=
  opcode == Register.confirmOpcode && payload.length == 3 + length.toNat &&
    payload.take 3 == [0, register, Register.readAccess]

/-- Completes a command with a callback. A protocol error leaves the reading as it was. -/
def complete (c : Command) (callback : Callback) (band : Band) :
    Except Fault (Command × Verdict) :=
  match c, callback with
  | .power on, .powerState [state] =>
      .ok (c, if (state != 0) == on then .success else .error)
  | .delay _, .delayElapsed => .ok (c, .success)
  | .write register _, .vendor opcode payload =>
      .ok (c,
        if opcode = Register.confirmOpcode ∧ payload = [0, register, Register.writeAccess]
        then .success else .error)
  | .read register length kind _, .vendor opcode payload =>
      if answersRead register length opcode payload then do
        let (verdict, reading) ← kind.decode (payload.drop 3) band
        .ok (.read register length kind reading, verdict)
      else .ok (c, .error)
  | _, _ => .ok (c, .error)

/-- The callback that confirms a command, for a command that is no read. -/
def confirmation : Command → Option Callback
  | .power on => some (.power on)
  | .delay _ => some .delayElapsed
  | .write register _ =>
      some (.vendor Register.confirmOpcode [0, register, Register.writeAccess])
  | .read .. => none

def text : Command → String
  | .power true => "enable"
  | .power false => "disable"
  | .delay ms => s!"delay {Text.duration ms}"
  | .write register value => s!"write 0x{Text.hexByte register} {Text.hexBytes value}"
  | .read register length _ _ => s!"read 0x{Text.hexByte register} x{length.toNat}"

end Command

end FmTuner
