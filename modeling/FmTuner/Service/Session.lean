import FmTuner.Service.Basic

/-!
# Sessions with the service

A session submits requests and waits for their outcomes. Requests are numbered as they are
submitted; each that was taken leaves a receipt, against which its outcome can be had once.
-/

namespace FmTuner

/-- Why a request to the radio has no success to report. -/
inductive RadioError where
  | serviceClosed
  | waitTimedOut (request : String) (budget : Nat)
  | ended (request : String) (outcome : Outcome)
  deriving DecidableEq, Repr

def RadioError.message : RadioError → String
  | .serviceClosed => "tuner task is not running"
  | .waitTimedOut request budget =>
      s!"{request} did not complete within {Text.duration budget}"
  | .ended request outcome => s!"{request} finished with {outcome.title}"

/-- Takes every outcome but a success for an error. -/
def Outcome.check (request : String) (outcome : Outcome) : Except RadioError Unit :=
  if outcome.isSuccess then .ok () else .error (.ended request outcome)

inductive Reply where
  | outcome (o : Outcome)
  /-- The service will not report an outcome. -/
  | dropped
  /-- There was no outcome in the time allowed. -/
  | pending
  deriving DecidableEq, Repr

inductive Receipt where
  | request (id : RequestId)
  /-- A request that nobody is told the outcome of. -/
  | anonymous
  deriving DecidableEq, Repr

structure Session where
  service : Service
  nextId : RequestId := 1
  /-- The receipts in the order in which they were given, without those that are used up. -/
  receipts : List (Option Receipt) := []
  deriving DecidableEq, Repr

namespace Session

def isOpen (s : Session) : Bool := s.service.ended.isNone

def snapshot (s : Session) : Snapshot := s.service.published

def isTunedToChannel (s : Session) : Bool := s.snapshot.attributes.isTunedToChannel

/-- Submits a client's request, unless the service has ended. -/
def send? (s : Session) (operation : Operation) : Option (Session × RequestId) :=
  if s.isOpen then
    some ({ s with
      service := s.service.post { id := some s.nextId, operation }
      nextId := s.nextId + 1 }, s.nextId)
  else none

def reply (s : Session) (id : RequestId) : Reply :=
  match s.service.outcome? id with
  | some o => .outcome o
  | none => if s.service.awaits id then .pending else .dropped

/-- Waits for the outcome of a request, no longer than a given time. -/
def await (s : Session) (id : RequestId) (ms : Nat) : Session × Reply :=
  let s := { s with service := s.service.wait (fun service ↦ !service.awaits id) ms }
  (s, s.reply id)

def settle (s : Session) : Session := { s with service := s.service.settle }

def request (s : Session) (operation : Operation) (ms : Nat) :
    Session × Except RadioError Reply :=
  match s.send? operation with
  | none => (s, .error .serviceClosed)
  | some (s, id) =>
      match s.await id ms with
      | (s, .dropped) => (s, .error .serviceClosed)
      | (s, reply) => (s, .ok reply)

/-- Submits a request and waits for its outcome within the budget of its operation. -/
def requestWithinBudget (s : Session) (timing : Timing) (operation : Operation) :
    Session × Except RadioError Outcome :=
  let budget := timing.budget operation
  match s.request operation budget with
  | (s, .error e) => (s, .error e)
  | (s, .ok (.outcome o)) => (s, .ok o)
  | (s, .ok _) => (s, .error (.waitTimedOut operation.name budget))

/-- Submits a request and keeps a receipt, whose number is given. -/
def submit (s : Session) (operation : Operation) : Session × Except RadioError Nat :=
  match s.send? operation with
  | none => (s, .error .serviceClosed)
  | some (s, id) =>
      ({ s with receipts := s.receipts ++ [some (.request id)] }, .ok s.receipts.length)

/-- Submits a request without identifier, and tells whether the service took it. -/
def inject (s : Session) (operation : Operation) : Session × Bool :=
  let service := if s.isOpen then s.service.post { id := none, operation } else s.service
  ({ s with service, receipts := s.receipts ++ [some .anonymous] }, s.isOpen)

/-- Waits for the outcome that a receipt stands for, and uses the receipt up. -/
def redeem (s : Session) (number : Nat) (ms : Nat) : Session × Option Reply :=
  match s.receipts[number]? with
  | some (some receipt) =>
      let s := { s with receipts := s.receipts.set number none }
      match receipt with
      | .request id => let (s, reply) := s.await id ms; (s, some reply)
      | .anonymous => (s, some .dropped)
  | _ => (s, none)

/-- Gives a receipt up, and tells whether it was still there. -/
def forget (s : Session) (number : Nat) : Session × Bool :=
  match s.receipts[number]? with
  | some (some _) => ({ s with receipts := s.receipts.set number none }, true)
  | _ => (s, false)

def sleep (s : Session) (ms : Nat) : Session := { s with service := s.service.sleep ms }

/-- Waits for a published snapshot with a property. There is no verdict if the service has ended
and its last snapshot lacks the property. -/
def waitFor (s : Session) (goal : Snapshot → Bool) (ms : Nat) : Session × Option Bool :=
  if !s.isOpen && !goal s.snapshot then (s, none)
  else
    let s :=
      { s with
        service := s.service.wait
          (fun service ↦ goal service.published || service.ended.isSome) ms }
    if goal s.snapshot then (s, some true)
    else (s, if s.isOpen then some false else none)

end Session

end FmTuner
