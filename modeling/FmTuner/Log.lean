import FmTuner.LogLevel
import FmTuner.Service.Basic
import FmTuner.Wire

/-!
# The log

The lines that the daemon writes about the radio.
-/

namespace FmTuner

structure LogLine where
  level : LogLevel
  text : String
  deriving DecidableEq, Repr

namespace LogLine

def info (text : String) : LogLine := ⟨.info, text⟩

def warn (text : String) : LogLine := ⟨.warn, text⟩

def error (text : String) : LogLine := ⟨.error, text⟩

end LogLine

namespace Notification

/-- The lines in which the log reports a notification. Stations found by a full scan come before
the notification itself. -/
def logLines (n : Notification) : List LogLine :=
  let event := LogLine.info s!"event: {n.toJson.text}"
  match n with
  | .error => [.error "tuner entered the error state; restart required"]
  | .fullScanResult frequencies signals _ =>
      (frequencies.zip signals).map (fun (f, signal) ↦
        LogLine.info s!"station {f.text} (signal {signal.toNat})") ++ [event]
  | .forcedPause | .rdsData _ | .extraCommand .. | .automaticSwitch .. => []
  | _ => [event]

end Notification

namespace Bulletin

/-- The lines about changes of state, which are written before the notifications go out. -/
def stateLines (b : Bulletin) : List LogLine :=
  b.notifications.filterMap fun
    | .stateChanged old new => some (.info s!"Radio state {old.name} -> {new.name}")
    | .started => some (.info s!"Radio started on {b.band.min.text}..{b.band.max.text}")
    | _ => none

def logLines (b : Bulletin) : List LogLine :=
  b.stateLines ++ b.notifications.flatMap Notification.logLines

end Bulletin

end FmTuner
