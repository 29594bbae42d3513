import FmTuner.Proofs.Moves
import Mathlib.Data.List.Nodup

/-!
# Every request is reported once

A client's request waits in the queue, is in flight or has been reported. Every move keeps the
number of times that an identifier occurs in these three places together.
-/

namespace FmTuner

/-- The outcome that an effect reports. -/
def Effect.report? : Effect → Option (RequestId × Outcome)
  | .complete id outcome => some (id, outcome)
  | _ => none

/-- The client whose request an event brings. -/
def Event.client? : Event → Option RequestId
  | .request r => r.id
  | _ => none

namespace Journal

/-- The outcomes reported, in order. -/
def reports (j : Journal) : List (RequestId × Outcome) := j.effects.filterMap Effect.report?

@[simp] theorem reports_append (j k : Journal) : reports (j ++ k) = reports j ++ reports k := by
  simp [reports]

@[simp] theorem reports_nil : reports [] = [] := rfl

@[simp] theorem reports_ofReport (id : Option RequestId) (outcome : Outcome) :
    reports (ofReport id outcome) = id.toList.map (·, outcome) := by
  cases id <;> rfl

theorem reports_eq_nil {j : Journal}
    (h : ∀ e ∈ j, ∀ id outcome, e ≠ .effect (.complete id outcome)) : reports j = [] := by
  simp only [reports, effects, List.filterMap_filterMap, List.filterMap_eq_nil_iff]
  intro e he
  have hne := h e he
  cases e with
  | effect f => cases f <;> first | rfl | exact (hne _ _ rfl).elim
  | _ => rfl

@[simp] theorem reports_notices (ns : List Notification) :
    reports (ns.map fun n ↦ .effect (.notify n)) = [] :=
  reports_eq_nil (by simp)

@[simp] theorem reports_ofProgress (first : Nat) (p : Progress) :
    reports (ofProgress first p) = [] :=
  reports_eq_nil (by simp +contextual [ofProgress, or_imp, forall_and])

@[simp] theorem reports_ofChange (old new : RadioState) : reports (ofChange old new) = [] := by
  unfold ofChange
  split
  · rfl
  · cases new <;> rfl

@[simp] theorem reports_ofPoll (target : RadioState) (generation after : Nat) :
    reports (ofPoll target generation after) = [] := by
  unfold ofPoll
  split <;> rfl

@[simp] theorem reports_ofStart (p : Pending) : reports (ofStart p) = [] := by
  unfold ofStart
  split <;> rfl

@[simp] theorem reports_ofReadings (p : Pending) (a : Attributes) :
    reports (ofReadings p a) = [] := by
  refine reports_eq_nil fun e he id outcome ↦ ?_
  rintro rfl
  unfold ofReadings at he
  split at he <;> split at he <;> (try split at he) <;> simp at he

@[simp] theorem reports_ofEnd (c : Controller) (p : Pending) (armed timedOut : Bool) :
    reports (ofEnd c p armed timedOut) =
      p.request.toList.map (·, (Turn.resolution p timedOut).2) := by
  have harmed : reports (if armed then [.effect .disarmTimeout] else []) = [] := by
    cases armed <;> rfl
  have hresolved : ∀ e j, (∃ q b d, e = Entry.resolved q b d) → reports (e :: j) = reports j := by
    rintro e j ⟨q, b, d, rfl⟩
    rfl
  rw [ofEnd, reports_append, hresolved _ _ ⟨_, _, _, rfl⟩]
  simp [harmed]

/-- The clients whose requests were reported, in order. -/
def reportedIds (j : Journal) : List RequestId := j.reports.map Prod.fst

@[simp] theorem reportedIds_append (j k : Journal) :
    reportedIds (j ++ k) = reportedIds j ++ reportedIds k := by
  simp [reportedIds]

theorem reportedIds_eq_nil {j : Journal} (h : reports j = []) : reportedIds j = [] := by
  simp [reportedIds, h]

@[simp] theorem reportedIds_ofReport (id : Option RequestId) (outcome : Outcome) :
    reportedIds (ofReport id outcome) = id.toList := by
  cases id <;> rfl

@[simp] theorem reportedIds_ofProgress (first : Nat) (p : Progress) :
    reportedIds (ofProgress first p) = [] :=
  reportedIds_eq_nil (reports_ofProgress first p)

@[simp] theorem reportedIds_ofEnd (c : Controller) (p : Pending) (armed timedOut : Bool) :
    reportedIds (ofEnd c p armed timedOut) = p.request.toList := by
  cases hrequest : p.request <;> simp [reportedIds, hrequest]

end Journal

namespace Controller

def queuedIds (c : Controller) : List RequestId := c.queue.filterMap fun q ↦ q.request.id

def pendingId (c : Controller) : Option RequestId := c.pending.bind Pending.request

/-- How often a client occurs in the queue and in flight. -/
def openCount (c : Controller) (id : RequestId) : Nat :=
  c.queuedIds.count id + c.pendingId.toList.count id

end Controller

theorem Journal.followups_ids (first : Nat) (operations : List Operation) :
    ((followups first operations).filterMap fun q ↦ q.request.id) = [] := by
  induction operations generalizing first with
  | nil => rfl
  | cons operation rest ih => simp [ih]

namespace Turn

variable {accepts : Call → Bool} {e : Option Event} {t u : Turn} {id : RequestId}

/-- How often a client occurs in the queue, in flight and among the outcomes reported. -/
def tally (t : Turn) (id : RequestId) : Nat :=
  t.radio.openCount id + t.journal.reportedIds.count id

theorem Taken.client {r : Request} (h : Taken e t r u) : e.bind Event.client? = none := by
  cases h <;> rfl

theorem Taken.tally {r : Request} (h : Taken e t r u) (id : RequestId) :
    t.tally id = u.tally id + r.id.toList.count id := by
  cases h with
  | @queued _ q passed rest hpending hqueue =>
      have hreports : Journal.reportedIds [Entry.dispatched q passed t.radio] = [] := rfl
      cases hid : q.request.id with
      | none =>
          simp [Turn.tally, Controller.openCount, Controller.queuedIds, Controller.pendingId,
            hpending, hqueue, hreports, hid]
      | some i =>
          simp [Turn.tally, Controller.openCount, Controller.queuedIds, Controller.pendingId,
            hpending, hqueue, hreports, hid, List.count_cons]
          omega
  | poll => simp

theorem report_tally (rid : Option RequestId) (outcome : Outcome) :
    (t.report rid outcome).tally id = t.tally id + rid.toList.count id := by
  simp [tally, Nat.add_assoc]

theorem launch_tally (p : Pending) (notices : List Notification) :
    (t.launch p notices).tally id = t.tally id := by
  have hreports : Journal.reportedIds
      (.begun p t.radio :: notices.map fun n ↦ .effect (.notify n)) = [] :=
    Journal.reportedIds_eq_nil (Journal.reports_eq_nil (by simp))
  simp [tally, hreports, Controller.openCount, Controller.queuedIds, Controller.pendingId]

theorem hold_tally (p : Pending) (progress : Progress) (id : RequestId) :
    (t.hold p progress).tally id + t.radio.pendingId.toList.count id =
      t.tally id + p.request.toList.count id := by
  simp [tally, Controller.openCount, Controller.queuedIds, Controller.pendingId,
    Journal.followups_ids]
  omega

theorem settle_tally (p : Pending) (progress : Progress) (armed timedOut : Bool) (id : RequestId) :
    (t.settle p progress armed timedOut).tally id + t.radio.pendingId.toList.count id =
      t.tally id + p.request.toList.count id := by
  simp [tally, Controller.openCount, Controller.queuedIds, Controller.pendingId,
    Controller.resolved, Journal.followups_ids]
  omega

/-- Every move keeps the count of a client, but for the request that it brings. -/
theorem Move.tally (h : Move accepts e t u) (id : RequestId) :
    u.tally id = t.tally id + (e.bind Event.client?).toList.count id := by
  cases h with
  | ready =>
      have hreports : (Journal.ofChange t.radio.state .idle ++
          Journal.ofPoll .idle t.radio.generation t.radio.timing.pollInterval).reportedIds = [] :=
        Journal.reportedIds_eq_nil (by simp)
      simp [Turn.tally, hreports, Controller.openCount, Controller.queuedIds,
        Controller.pendingId, Event.client?]
  | arrive r =>
      have hreports : Journal.reportedIds [Entry.queued ⟨t.radio.arrivals, r⟩] = [] := rfl
      cases hid : r.id <;>
        simp [Turn.tally, Controller.openCount, Controller.queuedIds, Controller.pendingId,
          Event.client?, hreports, hid]
      omega
  | decline htaken =>
      rw [htaken.tally, htaken.client, report_tally]
      simp
  | @begin _ _ u r destination plan progress htaken =>
      have harm : ∀ v : Turn, (v.emit (.armTimeout (u.radio.begun + 1)
          (u.radio.timing.budget r.operation))).tally id = v.tally id := fun v ↦ by
        have hreports : Journal.reportedIds [.effect (.armTimeout (u.radio.begun + 1)
          (u.radio.timing.budget r.operation))] = [] := rfl
        simp [Turn.tally, hreports]
      have hhold := hold_tally (t := u.launch (u.radio.transition r destination plan.action)
        plan.notices) (u.radio.transition r destination plan.action) progress id
      have hnone : (u.launch (u.radio.transition r destination plan.action)
          plan.notices).radio.pendingId = none := by
        simp [Controller.pendingId, htaken.pending]
      rw [launch_tally, hnone] at hhold
      rw [harm, htaken.tally, htaken.client]
      simpa using hhold
  | @flash _ _ u r destination plan progress htaken =>
      have hsettle := settle_tally (t := u.launch (u.radio.transition r destination plan.action)
        plan.notices) (u.radio.transition r destination plan.action) progress false false id
      have hnone : (u.launch (u.radio.transition r destination plan.action)
          plan.notices).radio.pendingId = none := by
        simp [Controller.pendingId, htaken.pending]
      rw [launch_tally, hnone] at hsettle
      rw [htaken.tally, htaken.client]
      simpa using hsettle
  | @advance _ p callback progress hpending =>
      have hhold := hold_tally (t := t) p progress id
      simpa [Controller.pendingId, hpending, Event.client?] using hhold
  | @finish _ p callback progress hpending =>
      have hsettle := settle_tally (t := t) p progress true false id
      simpa [Controller.pendingId, hpending, Event.client?] using hsettle
  | @expire _ p hpending =>
      have hsettle := settle_tally (t := t) p
        { action := { p.action with status := .error }, attributes := t.radio.attributes } true true
        id
      simpa [Controller.pendingId, hpending, Event.client?] using hsettle

end Turn

/-! ## Steps and runs -/

namespace Controller

variable {accepts : Call → Bool} {c : Controller} {u : Turn}

/-- A step reports exactly those clients that it takes out of the queue and out of flight, counting
the one whose request it brings. -/
theorem step_tally {event : Event} (hsteady : c.Steady) (h : c.step accepts event = .ok u)
    (id : RequestId) :
    u.radio.openCount id + u.journal.reportedIds.count id =
      c.openCount id + event.client?.toList.count id := by
  have hstart : Turn.tally { radio := c } id = c.openCount id := by
    simp [Turn.tally, Journal.reportedIds]
  change u.tally id = _
  rw [← hstart]
  rcases step_moves hsteady h with ⟨rfl, -, rfl⟩ | ⟨v, hcause, hmoves, -⟩
  · simp [Event.client?]
  · have hv : v.tally id = Turn.tally { radio := c } id + event.client?.toList.count id := by
      rcases hcause with ⟨hignores, rfl⟩ | hmove
      · have hclient : event.client? = none := by
          cases event with
          | request r => exact hignores.elim
          | _ => rfl
        simp [hclient]
      · simpa using hmove.tally id
    refine Turn.keeps_of_moves (Q := fun t ↦ t.tally id = _) ?_ hmoves hv
    intro t w ht hmove
    rw [hmove.tally, ht]
    simp

theorem step_steady {event : Event} (hsteady : c.Steady) (h : c.step accepts event = .ok u) :
    u.radio.Steady := by
  rcases step_moves hsteady h with ⟨-, -, rfl⟩ | ⟨v, hcause, hmoves, -⟩
  · exact hsteady
  · have hv : v.radio.Steady := by
      rcases hcause with ⟨-, rfl⟩ | hmove
      · exact hsteady
      · exact hmove.steady hsteady
    exact Turn.keeps_of_moves (Q := fun t ↦ t.radio.Steady)
      (fun _ _ ht hmove ↦ hmove.steady ht) hmoves hv

theorem initial_steady (timing : Timing) : (initial timing).Steady := by
  simp [Steady, initial]

/-- The clients whose requests a script submits, in order. -/
def submitted (script : List (Event × (Call → Bool))) : List RequestId :=
  script.filterMap fun x ↦ x.1.client?

theorem run_tally {script : List (Event × (Call → Bool))} (hsteady : c.Steady)
    (h : c.run script = .ok u) (id : RequestId) :
    u.radio.openCount id + u.journal.reportedIds.count id =
      c.openCount id + (submitted script).count id := by
  induction script generalizing c u with
  | nil =>
      cases Except.ok.inj h
      simp [submitted, Journal.reportedIds]
  | cons entry rest ih =>
      obtain ⟨event, accepts⟩ := entry
      simp only [run, bind, Except.bind] at h
      split at h
      next => simp at h
      next v hstep =>
        split at h
        next => simp at h
        next w hrest =>
          cases Except.ok.inj h
          have hnow := step_tally hsteady hstep id
          have hlater := ih (step_steady hsteady hstep) hrest
          have hsubmitted : (submitted ((event, accepts) :: rest)).count id =
              event.client?.toList.count id + (submitted rest).count id := by
            cases hclient : event.client? <;> simp [submitted, hclient, List.count_cons]
            omega
          simp only [Journal.reportedIds_append, List.count_append, hsubmitted]
          omega

/-- A client that submits one request is once in the queue, in flight or among the outcomes
reported. -/
theorem run_once {timing : Timing} {script : List (Event × (Call → Bool))}
    (hids : (submitted script).Nodup) (h : (initial timing).run script = .ok u) (id : RequestId) :
    u.radio.queuedIds.count id + u.radio.pendingId.toList.count id +
        u.journal.reportedIds.count id =
      if id ∈ submitted script then 1 else 0 := by
  have htally := run_tally (initial_steady timing) h id
  have hempty : (initial timing).openCount id = 0 := by
    simp [openCount, queuedIds, pendingId, initial]
  rw [hempty, Nat.zero_add, openCount] at htally
  rw [htally, hids.count]

end Controller

end FmTuner
