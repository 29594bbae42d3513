import FmTuner.Backend.Simulated
import FmTuner.Receiver
import FmTuner.Service.Agenda

/-!
# The tuner service

The service is the one place where the controller is stepped. It turns requests, answers of the
chip and alarms into events, carries out the effects, and publishes a snapshot after every step.
Time is virtual: it stands still while there is anything to do, then jumps to the next alarm.
-/

namespace FmTuner

structure ServiceSettings where
  backend : String := "sim"
  timing : Timing := {}
  chip : ChipSettings := {}
  deriving DecidableEq, Repr

/-- Why the service has ended before its time. -/
inductive ServiceError where
  | backend (e : BackendError)
  | fault (f : Fault)
  deriving DecidableEq, Repr

/-- The notifications of one step, with the band that was in force after it. -/
structure Bulletin where
  notifications : List Notification
  band : Band
  deriving DecidableEq, Repr

structure Service where
  now : Nat := 0
  receiver : Receiver
  /-- How long an answer of the chip is on its way. -/
  latency : Nat
  /-- Answers of the chip that have arrived. -/
  inbox : List Callback := []
  agenda : Agenda := []
  /-- The requests with somebody waiting for the outcome. -/
  waiting : List RequestId := []
  answered : List (RequestId × Outcome) := []
  published : Snapshot := {}
  bulletins : List Bulletin := []
  ended : Option ServiceError := none
  deriving DecidableEq, Repr

namespace Service

def outcome? (s : Service) (id : RequestId) : Option Outcome := s.answered.lookup id

def awaits (s : Service) (id : RequestId) : Bool := s.waiting.contains id

def notifications (s : Service) : List Notification :=
  s.bulletins.flatMap Bulletin.notifications

/-- Ends the service: whoever waits is let go without an outcome. -/
def fail (s : Service) (e : ServiceError) : Service :=
  { s with waiting := [], inbox := [], agenda := [], ended := some e }

def carry (s : Service) (answer : Callback) : Service :=
  if s.latency = 0 then { s with inbox := s.inbox ++ [answer] }
  else { s with agenda := s.agenda.add ⟨s.now + s.latency, .answer answer⟩ }

/-- Carries out an effect. Notifications go out with the bulletin of the step. -/
def perform (s : Service) : Effect → Service
  | .notify _ => s
  | .armTimeout pending after =>
      { s with agenda := s.agenda.disarm.add ⟨s.now + after, .timeout pending⟩ }
  | .disarmTimeout => { s with agenda := s.agenda.disarm }
  | .armDelay after => { s with agenda := s.agenda.add ⟨s.now + after, .delay⟩ }
  | .schedulePoll generation after =>
      { s with agenda := s.agenda.add ⟨s.now + after, .poll generation⟩ }
  | .complete id outcome =>
      if s.awaits id then
        { s with waiting := s.waiting.erase id, answered := (id, outcome) :: s.answered }
      else s

def publish (s : Service) (reaction : Receiver.Reaction) : Service :=
  let notifications := reaction.journal.notifications
  let radio := reaction.receiver.radio
  { s with
    receiver := reaction.receiver
    published := radio.snapshot
    bulletins :=
      if notifications = [] then s.bulletins
      else s.bulletins ++ [⟨notifications, radio.attributes.band⟩] }

/-- Steps the receiver with an event. A fault ends the service. -/
def handle (s : Service) (event : Event) : Service :=
  match s.receiver.step (fun _ ↦ true) event with
  | .error crash => s.fail (.fault crash.fault)
  | .ok reaction =>
      reaction.journal.effects.foldl perform (reaction.answers.foldl carry (s.publish reaction))

/-- The service on a tuner, before the controller has heard of it. -/
def onTuner (timing : Timing) (tuner : SimulatedTuner) : Service :=
  { receiver := { radio := .initial timing, chip := tuner.chip }, latency := tuner.latency }

/-- Opens the service on a backend and reports to the controller that the hardware is ready. -/
def launch (registry : Registry Backend.Factory) (settings : ServiceSettings) : Service :=
  match registry.resolve settings.backend settings.chip with
  | .ok tuner => (onTuner settings.timing tuner).handle .ready
  | .error e => (onTuner settings.timing (.ofSettings settings.chip)).fail (.backend e)

/-- Takes a request in. If its outcome is awaited, it is kept track of until it is reported; nobody
is told the outcome of a request without an identifier. -/
def receive (s : Service) (request : Request) (awaited : Bool) : Service :=
  let s :=
    match request.id with
    | some id => if awaited then { s with waiting := id :: s.waiting } else s
    | none => s
  s.handle (.request request)

def post (s : Service) (request : Request) : Service := s.receive request true

/-! ## Time -/

/-- The next event not later than a time: answers that have arrived come first. -/
def next? (s : Service) (limit : Nat) : Option (Event × Service) :=
  match s.inbox, s.agenda with
  | c :: rest, _ => some (.callback c, { s with inbox := rest })
  | [], a :: rest =>
      if a.due ≤ limit then
        some (a.alarm.event, { s with now := max s.now a.due, agenda := rest })
      else none
  | [], [] => none

/-- Processes events not later than a time, at most `fuel` of them, until there are none or a goal
is reached. The goal is looked at when no answer is left to be taken. -/
def runUntil (goal : Service → Bool) (limit : Nat) : Nat → Service → Service
  | 0, s => s
  | fuel + 1, s =>
      if s.inbox.isEmpty && goal s then s
      else
        match s.next? limit with
        | some (event, s) => runUntil goal limit fuel (s.handle event)
        | none => s

/-- How many events the service processes on end before it is taken to be stuck. -/
def stamina : Nat := Nat.pow 2 62

def settle (s : Service) : Service := s.runUntil (fun _ ↦ false) s.now stamina

/-- Lets time pass until a goal is reached, but no longer than a given time. Alarms that are due
exactly at the end no longer count towards the goal. -/
def wait (s : Service) (goal : Service → Bool) (ms : Nat) : Service :=
  let last := s.now + ms
  let s := s.runUntil goal (last - 1) stamina
  if goal s then s else { s with now := last }

def sleep (s : Service) (ms : Nat) : Service :=
  let last := s.now + ms
  { s.runUntil (fun _ ↦ false) last stamina with now := last }

end Service

end FmTuner
