import FmTuner.Radio

/-!
# Notifications

What observers of the radio are told, and the categories they subscribe to.
-/

namespace FmTuner

inductive Notification where
  | stateChanged (old new : RadioState)
  | started
  | error
  | scanResult (frequency : Option Freq) (signal : Option UInt8) (direction : Direction)
      (aborted : Bool)
  | fullScanResult (frequencies : List Freq) (signals : List UInt8) (aborted : Bool)
  | forcedPause
  | forcedReset (reason : Nat)
  | rdsData (data : List UInt8)
  | signalStrengthChanged (value : UInt8)
  | stereoChanged (stereo : Bool)
  | extraCommand (command : String) (args : List String)
  | automaticSwitch (frequency : Freq) (reason : Nat)
  deriving DecidableEq, Repr

inductive Category where
  | stateChanged
  | started
  | error
  | scanResult
  | forcedPause
  | forcedReset
  | rdsData
  | signalStrength
  | stereo
  | extraCommand
  | automaticSwitch
  deriving DecidableEq, Repr

namespace Category

def all : List Category :=
  [.stateChanged, .started, .error, .scanResult, .forcedPause, .forcedReset, .rdsData,
    .signalStrength, .stereo, .extraCommand, .automaticSwitch]

def name : Category → String
  | .stateChanged => "state-changed"
  | .started => "started"
  | .error => "error"
  | .scanResult => "scan-result"
  | .forcedPause => "forced-pause"
  | .forcedReset => "forced-reset"
  | .rdsData => "rds-data"
  | .signalStrength => "signal-strength"
  | .stereo => "stereo"
  | .extraCommand => "extra-command"
  | .automaticSwitch => "automatic-switch"

end Category

/-- The results of both sorts of scan share a category. -/
def Notification.category : Notification → Category
  | .stateChanged .. => .stateChanged
  | .started => .started
  | .error => .error
  | .scanResult .. | .fullScanResult .. => .scanResult
  | .forcedPause => .forcedPause
  | .forcedReset _ => .forcedReset
  | .rdsData _ => .rdsData
  | .signalStrengthChanged _ => .signalStrength
  | .stereoChanged _ => .stereo
  | .extraCommand .. => .extraCommand
  | .automaticSwitch .. => .automaticSwitch

end FmTuner
