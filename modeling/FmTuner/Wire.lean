import FmTuner.Json
import FmTuner.Notification

/-!
# The wire form

How frequencies, notifications and snapshots are written as JSON. A notification names its event
first; its data follow if it has any.
-/

namespace FmTuner

namespace Json

def ofByte (b : UInt8) : Json := .num b.toNat

def ofByteOption (b : Option UInt8) : Json := Json.ofOption ofByte b

end Json

def Freq.toJson (f : Freq) : Json := .obj [("khz", .num f.khz)]

def Region.name : Region → String
  | .europeUs => "europe-us"
  | .japan => "japan"

def Band.toJson (b : Band) : Json :=
  .obj [("min", b.min.toJson), ("max", b.max.toJson), ("spacing_khz", .num b.spacing),
    ("region", .str b.region.name)]

def Direction.name : Direction → String
  | .up => "up"
  | .down => "down"

def Station.toJson (s : Station) : Json :=
  .obj [("freq", s.freq.toJson), ("signal", .ofByte s.signal)]

def Attributes.toJson (a : Attributes) : Json :=
  .obj [("band", a.band.toJson), ("frequency", Json.ofOption Freq.toJson a.frequency),
    ("threshold", .num a.threshold), ("force_mono", .bool a.forceMono),
    ("signal_strength", .ofByteOption a.signalStrength), ("stereo", .bool a.stereo),
    ("auto_af_switch", .bool a.autoAfSwitch), ("auto_ta_switch", .bool a.autoTaSwitch),
    ("stations", .arr (a.stations.map Station.toJson))]

def Snapshot.toJson (s : Snapshot) : Json :=
  .obj [("state", .str s.state.name), ("activity", .str s.activity.name),
    ("pending", Json.ofOption .str s.pending), ("attributes", s.attributes.toJson)]

namespace Notification

def event : Notification → String
  | .stateChanged .. => "state-changed"
  | .started => "started"
  | .error => "error"
  | .scanResult .. => "scan-result"
  | .fullScanResult .. => "full-scan-result"
  | .forcedPause => "forced-pause"
  | .forcedReset _ => "forced-reset"
  | .rdsData _ => "rds-data"
  | .signalStrengthChanged _ => "signal-strength-changed"
  | .stereoChanged _ => "stereo-changed"
  | .extraCommand .. => "extra-command"
  | .automaticSwitch .. => "automatic-switch"

def data : Notification → Option Json
  | .stateChanged old new => some (.obj [("old", .str old.name), ("new", .str new.name)])
  | .scanResult frequency signal direction aborted =>
      some (.obj [("frequency", Json.ofOption Freq.toJson frequency),
        ("signal", .ofByteOption signal), ("direction", .str direction.name),
        ("aborted", .bool aborted)])
  | .fullScanResult frequencies signals aborted =>
      some (.obj [("frequencies", .arr (frequencies.map Freq.toJson)),
        ("signals", .arr (signals.map .ofByte)), ("aborted", .bool aborted)])
  | .forcedReset reason => some (.obj [("reason", .num reason)])
  | .rdsData data => some (.obj [("data", .arr (data.map .ofByte))])
  | .signalStrengthChanged value => some (.ofByte value)
  | .stereoChanged stereo => some (.bool stereo)
  | .extraCommand command args =>
      some (.obj [("command", .str command), ("args", .arr (args.map .str))])
  | .automaticSwitch frequency reason =>
      some (.obj [("frequency", frequency.toJson), ("reason", .num reason)])
  | .started | .error | .forcedPause => none

def toJson (n : Notification) : Json :=
  match n.data with
  | some data => .obj [("event", .str n.event), ("data", data)]
  | none => .obj [("event", .str n.event)]

end Notification

end FmTuner
