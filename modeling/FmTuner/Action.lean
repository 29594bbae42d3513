import FmTuner.Command
import FmTuner.Radio

/-!
# Actions

An action is one accepted operation with the commands that carry it out. Commands run one at a
time: the next is issued when a callback has confirmed the one before. When the status first
becomes terminal, the completion hook is applied to the attributes of the radio.
-/

namespace FmTuner

/-- The life of an action goes from idle through running to one of the other four. -/
inductive Status where
  | idle
  | running
  | done
  | cancel
  | fail
  | error
  deriving DecidableEq, Repr

def Status.isTerminal : Status → Bool
  | .idle | .running => false
  | _ => true

/-- The status that a verdict moves a running action to. -/
def Verdict.status : Verdict → Status
  | .success => .running
  | .cancel => .cancel
  | .fail => .fail
  | .error => .error

/-- What the end of an action does to the attributes. -/
inductive Hook where
  | none
  | started (band : Band)
  | frequencySet (f : Freq)
  | thresholdSet (value : Nat)
  | forceMonoSet (on : Bool)
  | autoAfSwitchSet (on : Bool)
  | autoTaSwitchSet (on : Bool)
  /-- Empties the station list before the first poll of a full scan. -/
  | fullScanStarted
  /-- Consumes the readings of a poll and asks for the next step of the scan. -/
  | scanPolled (mode : ScanMode) (capacity : Nat)
  /-- Ends the scan as aborted. -/
  | scanStopped (mode : ScanMode)
  deriving DecidableEq, Repr

structure Readings where
  frequency : Option Freq
  signal : Option UInt8
  stereo : Option Bool
  deriving DecidableEq, Repr

def Readings.ofCommands (commands : List Command) : Readings :=
  let values := commands.filterMap Command.reading
  { frequency := values.findSome? fun | .frequency f => some f | _ => none
    signal := values.findSome? fun | .signal level => some level | _ => none
    stereo := values.findSome? fun | .scanStatus stereo => some stereo | _ => none }

namespace Readings

/-- The attributes after a poll, without the station it may have found. -/
def tune (r : Readings) (a : Attributes) : Attributes :=
  { a with
    frequency := r.frequency <|> a.frequency
    signalStrength := r.signal <|> a.signalStrength
    stereo := r.stereo.getD a.stereo }

def station (r : Readings) : ScanMode → Option Station
  | .full => do some ⟨← r.frequency, ← r.signal⟩
  | _ => none

/-- The attributes after a poll, and the next step of the scan. A full scan goes on while there is
room for another station and a channel above the one it is on. -/
def poll (r : Readings) (mode : ScanMode) (capacity : Nat) (a : Attributes) :
    Except Fault (Attributes × Operation) :=
  match r.station mode with
  | some s => do
      let stations := a.stations ++ [s]
      let above ← a.band.nextChannel s.freq
      let next :=
        if capacity ≤ stations.length ∨ above = none then .scanDone mode false else .scanStep
      .ok ({ r.tune a with stations := stations }, next)
  | none => .ok (r.tune a, .scanDone mode false)

end Readings

/-- Applies a hook for a terminal status. The result holds the attributes and the operations that
follow, of which there is at most one. -/
def Hook.apply (hook : Hook) (status : Status) (commands : List Command) (a : Attributes) :
    Except Fault (Attributes × List Operation) :=
  match status, hook with
  | .done, .started band => .ok (a.restarted band, [])
  | .done, .frequencySet f => .ok ({ a with frequency := some f }, [])
  | .done, .thresholdSet value => .ok ({ a with threshold := value }, [])
  | .done, .forceMonoSet on => .ok ({ a with forceMono := on }, [])
  | .done, .autoAfSwitchSet on => .ok ({ a with autoAfSwitch := on }, [])
  | .done, .autoTaSwitchSet on => .ok ({ a with autoTaSwitch := on }, [])
  | .done, .fullScanStarted => .ok ({ a with stations := [] }, [])
  | .done, .scanPolled mode capacity => do
      let (polled, next) ← (Readings.ofCommands commands).poll mode capacity a
      .ok (polled, [next])
  | .fail, .scanPolled mode _ => .ok (a, [.scanDone mode false])
  | .done, .scanStopped mode => .ok (a, [.scanDone mode true])
  | _, _ => .ok (a, [])

/-- One exchange between an action and the chip. -/
inductive Exchange where
  /-- The command at `index` was sent, and the link took it or not. -/
  | issued (index : Nat) (command : Command) (accepted : Bool)
  /-- A callback answered the command at `index`. -/
  | answered (index : Nat) (command : Command) (callback : Callback) (verdict : Verdict)
  deriving DecidableEq, Repr

namespace Exchange

/-- The call that an exchange made, and whether it was accepted. -/
def sent : Exchange → Option (Call × Bool)
  | .issued _ command accepted => command.call.map (·, accepted)
  | .answered .. => none

/-- The delay that an exchange began. -/
def delay : Exchange → Option Nat
  | .issued _ command _ => command.delayMs
  | .answered .. => none

end Exchange

structure Action where
  operation : Operation
  commands : List Command
  hook : Hook
  /-- The position of the command that waits for its callback. -/
  index : Nat := 0
  status : Status := .idle
  deriving DecidableEq, Repr

/-- An action together with what it changed and did in one call. -/
structure Progress where
  action : Action
  attributes : Attributes
  exchanges : List Exchange := []
  followups : List Operation := []
  deriving DecidableEq, Repr

/-- A fault inside an action, with the action as the fault left it. -/
structure ActionFault where
  fault : Fault
  action : Action
  deriving DecidableEq, Repr

namespace Progress

def sent (p : Progress) : List (Call × Bool) := p.exchanges.filterMap Exchange.sent

def delays (p : Progress) : List Nat := p.exchanges.filterMap Exchange.delay

/-- Moves the status, unless it is terminal, and applies the hook when it becomes so. -/
def moveTo (p : Progress) (status : Status) : Except ActionFault Progress :=
  if p.action.status.isTerminal ∨ status = p.action.status then .ok p
  else
    let action := { p.action with status := status }
    if status.isTerminal then
      match action.hook.apply status action.commands p.attributes with
      | .ok (attributes, followups) =>
          .ok { p with
            action := action
            attributes := attributes
            followups := p.followups ++ followups }
      | .error fault => .error ⟨fault, action⟩
    else .ok { p with action := action }

def issue (accepts : Call → Bool) (p : Progress) : Except ActionFault Progress :=
  match entryAt p.action.commands p.action.index with
  | .error fault => .error ⟨fault, p.action⟩
  | .ok command =>
      let accepted := command.accepted accepts
      let p := { p with exchanges := p.exchanges ++ [Exchange.issued p.action.index command accepted] }
      p.moveTo (if accepted then .running else .error)

end Progress

namespace Action

/-- Issues the first command. An action without commands is done at once. -/
def execute (accepts : Call → Bool) (action : Action) (attributes : Attributes) :
    Except ActionFault Progress :=
  if action.status ≠ .idle then .ok { action, attributes }
  else if action.commands = [] then Progress.moveTo { action, attributes } .done
  else
    Progress.issue accepts { action := { action with index := 0, status := .running }, attributes }

/-- Completes the waiting command with a callback, and issues the next one after a success. -/
def hear (accepts : Call → Bool) (action : Action) (callback : Callback)
    (attributes : Attributes) : Except ActionFault Progress :=
  if action.status ≠ .running then .ok { action, attributes }
  else
    match
      entryAt action.commands action.index >>= fun command ↦
        command.complete callback attributes.band with
    | .error fault => .error ⟨fault, action⟩
    | .ok (command, verdict) =>
        let p : Progress :=
          { action := { action with commands := action.commands.set action.index command }
            attributes
            exchanges := [.answered action.index command callback verdict] }
        if verdict ≠ .success then p.moveTo verdict.status
        else if action.commands.length ≤ action.index + 1 then p.moveTo .done
        else
          Progress.issue accepts { p with action := { p.action with index := action.index + 1 } }

/-- Forces a terminal status from outside; any other status is refused. -/
def abort (action : Action) (status : Status) (attributes : Attributes) :
    Except ActionFault Progress :=
  if status.isTerminal then Progress.moveTo { action, attributes } status
  else .ok { action, attributes }

end Action

end FmTuner
