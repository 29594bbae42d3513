import FmTuner.Action
import FmTuner.Notification
import FmTuner.Timing

/-!
# Plans

A plan is the action that carries out an operation, with the notifications that are due when it
begins. An operation whose parameters the radio cannot use has no plan.
-/

namespace FmTuner

structure Plan where
  action : Action
  notices : List Notification := []
  deriving DecidableEq, Repr

namespace Plan

open Command Register

def ofCommands (operation : Operation) (commands : List Command) (hook : Hook) : Plan :=
  { action := { operation, commands, hook } }

/-- Tunes the chip to a known frequency. -/
def tuneCommands (f : Freq) : List Command :=
  [writeFrequency f, writeByte searchTuneMode preset]

/-- Starts a search in the given direction. -/
def searchCommands (up : Bool) (threshold : Nat) : List Command :=
  [writeByte searchControl (searchControlValue up threshold),
    writeByte searchTuneMode autoSearch]

def startCommands (timing : Timing) (band : Band) : List Command :=
  [.power true,
    writeByte rdsSystem rdsOn,
    .delay timing.settleDelay,
    writeByte fmControl (fmControlValue band false),
    writeByte audioControl (audioControlValue false)]

/-- The report that ends a scan. -/
def scanNotice (mode : ScanMode) (aborted : Bool) (a : Attributes) : Notification :=
  match mode with
  | .full =>
      .fullScanResult (a.stations.map Station.freq) (a.stations.map Station.signal) aborted
  | .up => .scanResult a.frequency a.signalStrength .up aborted
  | .down => .scanResult a.frequency a.signalStrength .down aborted

/-- The plan for an operation, given the attributes of the radio and the scan it is running. -/
def build (timing : Timing) (operation : Operation) (a : Attributes)
    (scanMode : Option ScanMode) : Except Fault (Option Plan) :=
  let plan commands hook := some (ofCommands operation commands hook)
  match operation with
  | .start band => .ok (plan (startCommands timing band) (.started band))
  | .reset => .ok (plan [writeByte rdsSystem rdsOff, .power false] .none)
  | .pause => .ok (plan [writeByte audioControl (audioControlValue true)] .none)
  | .resume => .ok (plan [writeByte audioControl (audioControlValue false)] .none)
  | .setFrequency f =>
      .ok (if a.band.isValid f then plan (tuneCommands f) (.frequencySet f) else none)
  | .setThreshold value => .ok (plan [] (.thresholdSet value))
  | .setForceMono on =>
      .ok (plan [writeByte fmControl (fmControlValue a.band on)] (.forceMonoSet on))
  | .setAutoAfSwitch on => .ok (plan [] (.autoAfSwitchSet on))
  | .setAutoTaSwitch on => .ok (plan [] (.autoTaSwitchSet on))
  | .scanUp => .ok (plan (searchCommands true a.threshold) .none)
  | .scanDown => .ok (plan (searchCommands false a.threshold) .none)
  | .fullScan =>
      .ok (plan (writeFrequency a.band.min :: searchCommands true a.threshold) .fullScanStarted)
  | .scanStep => do
      match ← a.band.nextChannel (a.frequency.getD a.band.min) with
      | some next => .ok (plan (writeFrequency next :: searchCommands true a.threshold) .none)
      | none => .ok none
  | .pollScan mode =>
      .ok (plan [pollStatus, readFrequency, readSignal] (.scanPolled mode timing.maxStations))
  | .stopScan =>
      .ok (scanMode.bind fun mode ↦
        plan [writeByte searchTuneMode terminate] (.scanStopped mode))
  | .scanDone mode aborted =>
      .ok (some
        { ofCommands operation ((a.frequency.map tuneCommands).getD []) .none with
          notices := [scanNotice mode aborted a] })

end Plan

end FmTuner
