import FmTuner.Proofs.Reports
import FmTuner.Service.Basic

/-!
# Whoever waits for an outcome gets one

The service keeps track of those clients whose outcome is awaited. After every round they are the
ones that wait in the queue or are in flight, and all others have had their one outcome.
-/

namespace FmTuner

namespace Service

variable {s : Service}

/-- One round of the service: it takes a request in, or hands any other event on. -/
def process (s : Service) (event : Event) (awaited : Bool) : Service :=
  match event with
  | .request r => s.receive r awaited
  | event => s.handle event

/-- The services that the service on a tuner becomes in the course of rounds, each with whether
the outcome of its request is awaited. Between two rounds time may pass and what is on its way may
change in any manner. A service that has ended takes nothing in. -/
inductive Reaches (timing : Timing) (tuner : SimulatedTuner) :
    List (Event × Bool) → Service → Prop where
  | start : Reaches timing tuner [] (onTuner timing tuner)
  | elapse {rounds : List (Event × Bool)} {s : Service} (h : Reaches timing tuner rounds s)
      (now : Nat) (inbox : List Callback) (agenda : Agenda) :
      Reaches timing tuner rounds { s with now, inbox, agenda }
  | round {rounds : List (Event × Bool)} {s : Service} (h : Reaches timing tuner rounds s)
      (hopen : s.ended = none) (event : Event) (awaited : Bool) :
      Reaches timing tuner (rounds ++ [(event, awaited)]) (s.process event awaited)

def clientIds (rounds : List (Event × Bool)) : List RequestId :=
  rounds.filterMap fun x ↦ x.1.client?

def awaitedIds (rounds : List (Event × Bool)) : List RequestId :=
  rounds.filterMap fun x ↦ if x.2 then x.1.client? else none

def answeredIds (s : Service) : List RequestId := s.answered.map Prod.fst

/-! ## Carrying out effects -/

@[simp] theorem carry_receiver (answer : Callback) : (s.carry answer).receiver = s.receiver := by
  unfold carry
  split <;> rfl

@[simp] theorem carry_waiting (answer : Callback) : (s.carry answer).waiting = s.waiting := by
  unfold carry
  split <;> rfl

@[simp] theorem carry_answered (answer : Callback) : (s.carry answer).answered = s.answered := by
  unfold carry
  split <;> rfl

@[simp] theorem carry_ended (answer : Callback) : (s.carry answer).ended = s.ended := by
  unfold carry
  split <;> rfl

theorem foldl_carry (answers : List Callback) :
    (answers.foldl carry s).receiver = s.receiver ∧ (answers.foldl carry s).waiting = s.waiting ∧
      (answers.foldl carry s).answered = s.answered ∧ (answers.foldl carry s).ended = s.ended := by
  induction answers generalizing s with
  | nil => simp
  | cons answer rest ih => simpa using ih (s := s.carry answer)

theorem perform_of_not_report {e : Effect} (h : e.report? = none) :
    (s.perform e).receiver = s.receiver ∧ (s.perform e).waiting = s.waiting ∧
      (s.perform e).answered = s.answered ∧ (s.perform e).ended = s.ended := by
  cases e with
  | complete id outcome => simp [Effect.report?] at h
  | _ => exact ⟨rfl, rfl, rfl, rfl⟩

theorem perform_complete (i : RequestId) (outcome : Outcome) (id : RequestId) :
    (s.perform (.complete i outcome)).waiting.count id =
        s.waiting.count id - (if i = id then 1 else 0) ∧
      (s.perform (.complete i outcome)).waiting.count id +
          (s.perform (.complete i outcome)).answeredIds.count id =
        s.waiting.count id + s.answeredIds.count id := by
  by_cases hawaits : s.awaits i = true
  · have hmem : i ∈ s.waiting := by simpa [awaits] using hawaits
    have hpos : 0 < s.waiting.count i := List.count_pos_iff.mpr hmem
    simp only [perform, hawaits, if_true, answeredIds, List.map_cons, List.count_cons,
      List.count_erase, beq_iff_eq]
    by_cases hid : i = id
    · subst hid
      simp only [↓reduceIte, true_and]
      omega
    · simp [hid]
  · have hmem : i ∉ s.waiting := by simpa [awaits] using hawaits
    simp only [perform, hawaits, if_false, Bool.false_eq_true, and_true]
    by_cases hid : i = id
    · subst hid
      simp [List.count_eq_zero_of_not_mem hmem]
    · simp [hid]

theorem foldl_perform (effects : List Effect) (id : RequestId) :
    let u := effects.foldl perform s
    let reported := ((effects.filterMap Effect.report?).map Prod.fst).count id
    u.receiver = s.receiver ∧ u.ended = s.ended ∧
      u.waiting.count id = s.waiting.count id - reported ∧
        u.waiting.count id + u.answeredIds.count id =
          s.waiting.count id + s.answeredIds.count id := by
  induction effects generalizing s with
  | nil => simp
  | cons e rest ih =>
      obtain ⟨hreceiver, hended, hwaiting, hanswered⟩ := ih (s := s.perform e)
      cases hreport : e.report? with
      | none =>
          obtain ⟨hr, hw, ha, he⟩ := perform_of_not_report (s := s) hreport
          simp only [answeredIds, hw, ha] at hwaiting hanswered
          simp only [List.foldl_cons, List.filterMap_cons, hreport]
          exact ⟨hreceiver.trans hr, hended.trans he, hwaiting, hanswered⟩
      | some report =>
          cases e with
          | complete i outcome =>
              cases hreport
              have hone := perform_complete (s := s) i outcome id
              have hkept : (s.perform (.complete i outcome)).receiver = s.receiver ∧
                  (s.perform (.complete i outcome)).ended = s.ended := by
                rw [perform]
                split <;> exact ⟨rfl, rfl⟩
              simp only [List.foldl_cons, List.filterMap_cons, Effect.report?, List.map_cons,
                List.count_cons, beq_iff_eq]
              refine ⟨hreceiver.trans hkept.1, hended.trans hkept.2, ?_, hanswered.trans hone.2⟩
              rw [hwaiting, hone.1]
              omega
          | _ => simp [Effect.report?] at hreport

/-! ## Rounds -/

/-- The service that waits for the outcome of the request that an event brings, if it is to. -/
def expecting (s : Service) (event : Event) (awaited : Bool) : Service :=
  { s with waiting := (if awaited then event.client?.toList else []) ++ s.waiting }

theorem process_eq (event : Event) (awaited : Bool) :
    s.process event awaited = (s.expecting event awaited).handle event := by
  cases event with
  | request r => cases hid : r.id <;> cases awaited <;>
      simp [process, receive, expecting, Event.client?, hid]
  | _ => cases awaited <;> simp [process, expecting, Event.client?]

theorem handle_eq {event : Event} {reaction : Receiver.Reaction}
    (h : s.receiver.step (fun _ ↦ true) event = .ok reaction) :
    s.handle event =
      reaction.journal.effects.foldl perform
        (reaction.answers.foldl carry (s.publish reaction)) := by
  simp only [handle, h]

/-- A step takes those whom it reports off those who wait. -/
theorem handle_ok {event : Event} {reaction : Receiver.Reaction}
    (h : s.receiver.step (fun _ ↦ true) event = .ok reaction) (id : RequestId) :
    (s.handle event).receiver = reaction.receiver ∧ (s.handle event).ended = s.ended ∧
      (s.handle event).waiting.count id =
        s.waiting.count id - reaction.journal.reportedIds.count id ∧
      (s.handle event).waiting.count id + (s.handle event).answeredIds.count id =
        s.waiting.count id + s.answeredIds.count id := by
  obtain ⟨hreceiver, hwaiting, hanswered, hended⟩ :=
    foldl_carry (s := s.publish reaction) reaction.answers
  obtain ⟨hr, he, hw, ha⟩ := foldl_perform
    (s := reaction.answers.foldl carry (s.publish reaction)) reaction.journal.effects id
  rw [handle_eq h]
  refine ⟨hr.trans hreceiver, he.trans hended, ?_, ?_⟩
  · rw [hw, hwaiting]
    rfl
  · rw [ha, answeredIds, hwaiting, hanswered]
    rfl

/-- Who waits, and who has been answered, after rounds that no fault has ended. -/
structure Tracks (s : Service) (rounds : List (Event × Bool)) : Prop where
  steady : s.receiver.radio.Steady
  /-- A client whose outcome is awaited waits as long as its request is open. -/
  waits : ∀ id ∈ awaitedIds rounds, s.waiting.count id = s.receiver.radio.openCount id
  /-- Nobody else waits. -/
  strangers : ∀ id, id ∉ awaitedIds rounds → s.waiting.count id = 0
  answers : ∀ id, s.waiting.count id + s.answeredIds.count id = (awaitedIds rounds).count id
  brought : ∀ id, s.receiver.radio.openCount id ≤ (clientIds rounds).count id

@[simp] theorem clientIds_append (rounds more : List (Event × Bool)) :
    clientIds (rounds ++ more) = clientIds rounds ++ clientIds more := by
  simp [clientIds]

@[simp] theorem awaitedIds_append (rounds more : List (Event × Bool)) :
    awaitedIds (rounds ++ more) = awaitedIds rounds ++ awaitedIds more := by
  simp [awaitedIds]

theorem clientIds_single (event : Event) (awaited : Bool) :
    clientIds [(event, awaited)] = event.client?.toList := by
  cases h : event.client? <;> simp [clientIds, h]

theorem awaitedIds_single (event : Event) (awaited : Bool) :
    awaitedIds [(event, awaited)] = if awaited then event.client?.toList else [] := by
  cases awaited <;> cases h : event.client? <;> simp [awaitedIds, h]

/-- Whoever is awaited has come in. -/
theorem count_awaitedIds_le (rounds : List (Event × Bool)) (id : RequestId) :
    (awaitedIds rounds).count id ≤ (clientIds rounds).count id := by
  induction rounds with
  | nil => simp [awaitedIds, clientIds]
  | cons x rest ih =>
      obtain ⟨event, awaited⟩ := x
      have hclient := clientIds_append [(event, awaited)] rest
      have hawaited := awaitedIds_append [(event, awaited)] rest
      rw [List.singleton_append] at hclient hawaited
      rw [hclient, hawaited, clientIds_single, awaitedIds_single, List.count_append,
        List.count_append]
      cases awaited <;> simp <;> omega

/-- A step that no fault cuts short keeps track of those who wait. -/
theorem Tracks.round {rounds : List (Event × Bool)} (h : s.Tracks rounds) {event : Event}
    {awaited : Bool} (hids : (clientIds (rounds ++ [(event, awaited)])).Nodup)
    {reaction : Receiver.Reaction}
    (hstep : s.receiver.step (fun _ ↦ true) event = .ok reaction) :
    (s.process event awaited).Tracks (rounds ++ [(event, awaited)]) := by
  obtain ⟨turn, hturn, rfl⟩ := Receiver.step_ok hstep
  have hhandle := handle_ok (s := s.expecting event awaited) hstep
  have hreceiver := (hhandle 0).1
  rw [process_eq]
  have htally := Controller.step_tally h.steady hturn
  -- an identifier comes in at most once: before, or with this round
  have honce : ∀ id, (clientIds rounds).count id + event.client?.toList.count id ≤ 1 := by
    intro id
    have hle := List.nodup_iff_count_le_one.mp hids id
    rwa [clientIds_append, clientIds_single, List.count_append] at hle
  have hexpecting : ∀ id, (s.expecting event awaited).waiting.count id =
      (awaitedIds [(event, awaited)]).count id + s.waiting.count id := by
    intro id
    rw [awaitedIds_single, expecting, List.count_append]
  have hawaited : ∀ id, (awaitedIds [(event, awaited)]).count id ≤
      event.client?.toList.count id := by
    intro id
    have hle := count_awaitedIds_le [(event, awaited)] id
    rwa [clientIds_single] at hle
  refine ⟨?_, ?_, ?_, ?_, ?_⟩
  · rw [hreceiver]
    exact Controller.step_steady h.steady hturn
  · intro id hid
    rw [(hhandle id).2.2.1, hreceiver, hexpecting]
    have hnow := htally id
    have hopen := h.brought id
    have hle := honce id
    by_cases hbefore : id ∈ awaitedIds rounds
    · have hcount : 0 < (clientIds rounds).count id :=
        (List.count_pos_iff.mpr hbefore).trans_le (count_awaitedIds_le rounds id)
      have hwaits := h.waits id hbefore
      have hsingle := hawaited id
      simp only at hnow ⊢
      omega
    · have hstrange := h.strangers id hbefore
      have hsingle : 0 < (awaitedIds [(event, awaited)]).count id := by
        rw [awaitedIds_append, List.mem_append] at hid
        exact List.count_pos_iff.mpr (hid.resolve_left hbefore)
      have hle' := hawaited id
      simp only at hnow ⊢
      omega
  · intro id hid
    rw [awaitedIds_append, List.mem_append, not_or] at hid
    rw [(hhandle id).2.2.1, hexpecting, h.strangers id hid.1, List.count_eq_zero_of_not_mem hid.2]
    simp
  · intro id
    have hbefore := h.answers id
    have hanswers : (s.expecting event awaited).answeredIds = s.answeredIds := rfl
    rw [(hhandle id).2.2.2, hexpecting, awaitedIds_append, List.count_append, hanswers]
    omega
  · intro id
    have hnow := htally id
    have hbefore := h.brought id
    rw [hreceiver, clientIds_append, clientIds_single, List.count_append]
    simp only at hnow ⊢
    omega

/-- A service either keeps track of those who wait, or has ended and let them go. -/
theorem Reaches.tracks {timing : Timing} {tuner : SimulatedTuner} {rounds : List (Event × Bool)}
    (h : Reaches timing tuner rounds s) (hids : (clientIds rounds).Nodup) :
    s.ended = none ∧ s.Tracks rounds ∨
      s.ended ≠ none ∧ s.waiting = [] ∧
        ∀ id, s.answeredIds.count id ≤ (awaitedIds rounds).count id := by
  induction h with
  | start =>
      refine .inl ⟨rfl, Controller.initial_steady timing, ?_, ?_, ?_, ?_⟩ <;>
        simp [onTuner, awaitedIds, clientIds, answeredIds, Controller.openCount,
          Controller.queuedIds, Controller.pendingId, Controller.initial]
  | elapse h now inbox agenda ih =>
      rcases ih hids with ⟨hopen, hsteady, hwaits, hstrangers, hanswers, hbrought⟩ | hended
      · exact .inl ⟨hopen, hsteady, hwaits, hstrangers, hanswers, hbrought⟩
      · exact .inr hended
  | @round rounds s h hopen event awaited ih =>
      have hbefore : s.Tracks rounds := by
        rw [clientIds_append] at hids
        rcases ih hids.of_append_left with ⟨-, ht⟩ | ⟨hended, -⟩
        · exact ht
        · exact (hended hopen).elim
      cases hstep : s.receiver.step (fun _ ↦ true) event with
      | ok reaction =>
          refine .inl ⟨?_, hbefore.round hids hstep⟩
          rw [process_eq, (handle_ok (s := s.expecting event awaited) hstep 0).2.1]
          exact hopen
      | error crash =>
          have hfail : s.process event awaited =
              (s.expecting event awaited).fail (.fault crash.fault) := by
            rw [process_eq, handle, show (s.expecting event awaited).receiver = s.receiver from rfl,
              hstep]
          rw [hfail]
          refine .inr ⟨by simp [fail], rfl, fun id ↦ ?_⟩
          have hanswers := hbefore.answers id
          have heq : ((s.expecting event awaited).fail (.fault crash.fault)).answeredIds =
              s.answeredIds := rfl
          rw [heq, awaitedIds_append, List.count_append]
          omega

theorem count_awaitedIds {rounds : List (Event × Bool)} (hids : (clientIds rounds).Nodup)
    (id : RequestId) :
    (awaitedIds rounds).count id = if id ∈ awaitedIds rounds then 1 else 0 := by
  split
  next hid =>
    have hle := (count_awaitedIds_le rounds id).trans (List.nodup_iff_count_le_one.mp hids id)
    have hpos := List.count_pos_iff.mpr hid
    omega
  next hid => exact List.count_eq_zero_of_not_mem hid

/-- Those who wait are those among the awaited whose requests are open. -/
theorem Tracks.mem_waiting {rounds : List (Event × Bool)} (h : s.Tracks rounds) (id : RequestId) :
    id ∈ s.waiting ↔ id ∈ awaitedIds rounds ∧
      (id ∈ s.receiver.radio.queuedIds ∨ s.receiver.radio.pendingId = some id) := by
  have hopen : 0 < s.receiver.radio.openCount id ↔
      id ∈ s.receiver.radio.queuedIds ∨ s.receiver.radio.pendingId = some id := by
    rw [Controller.openCount, Nat.add_pos_iff_pos_or_pos, List.count_pos_iff, List.count_pos_iff,
      Option.mem_toList]
  rw [← List.count_pos_iff]
  by_cases hid : id ∈ awaitedIds rounds
  · rw [h.waits id hid, hopen]
    exact ⟨fun hwhere ↦ ⟨hid, hwhere⟩, And.right⟩
  · rw [h.strangers id hid]
    exact ⟨fun hpos ↦ (Nat.lt_irrefl 0 hpos).elim, fun hwhere ↦ (hid hwhere.1).elim⟩

/-! ## The scheduler -/

/-- Whatever is still on its way once the service has ended does not count. -/
def Still (s : Service) : Prop := s.ended ≠ none → s.inbox = [] ∧ s.agenda = []

theorem handle_still (h : s.ended = none) (event : Event) : (s.handle event).Still := by
  intro hended
  cases hstep : s.receiver.step (fun _ ↦ true) event with
  | ok reaction => exact (hended ((handle_ok hstep 0).2.1.trans h)).elim
  | error crash => simp [handle, hstep, fail]

/-- What the service does by itself is a course of rounds. -/
theorem Reaches.runUntil {timing : Timing} {tuner : SimulatedTuner} {rounds : List (Event × Bool)}
    (h : Reaches timing tuner rounds s) (hstill : s.Still) (goal : Service → Bool)
    (limit fuel : Nat) :
    (s.runUntil goal limit fuel).Still ∧
      ∃ more, clientIds more = [] ∧
        Reaches timing tuner (rounds ++ more) (s.runUntil goal limit fuel) := by
  induction fuel generalizing s rounds with
  | zero => exact ⟨hstill, [], rfl, by simpa [Service.runUntil] using h⟩
  | succ fuel ih =>
      rw [Service.runUntil]
      split
      next => exact ⟨hstill, [], rfl, by simpa using h⟩
      next =>
        split
        next event v hnext =>
          have hopen : s.ended = none := by
            by_contra hended
            obtain ⟨hinbox, hagenda⟩ := hstill hended
            simp [next?, hinbox, hagenda] at hnext
          have hv : Reaches timing tuner rounds v ∧ v.ended = none ∧ event.client? = none := by
            unfold next? at hnext
            split at hnext
            next c rest hinbox =>
              cases hnext
              exact ⟨h.elapse s.now rest s.agenda, hopen, rfl⟩
            next a rest hinbox hagenda =>
              split at hnext
              next =>
                cases hnext
                exact ⟨h.elapse (max s.now a.due) s.inbox rest, hopen, by cases a.alarm <;> rfl⟩
              next => simp at hnext
            next => simp at hnext
          have hround := hv.1.round hv.2.1 event false
          have hprocess : v.process event false = v.handle event := by
            rw [process_eq]
            rfl
          rw [hprocess] at hround
          obtain ⟨hfinal, more, hmore, hreach⟩ := ih hround (handle_still hv.2.1 event)
          refine ⟨hfinal, (event, false) :: more, ?_, by simpa using hreach⟩
          have hcons := clientIds_append [(event, false)] more
          rwa [clientIds_single, hv.2.2, hmore] at hcons
        next => exact ⟨hstill, [], rfl, by simpa using h⟩

end Service

/-! ## One outcome for everybody -/

/-- Every client that has submitted a request is once in the queue, in flight or among the outcomes
reported; and whoever awaits an outcome from the service waits exactly as long as the request is in
the queue or in flight, and has had one outcome from then on. Only the end of the service lets
anybody go without. -/
theorem submitted_once_queued_pending_or_reported (timing : Timing) :
    (∀ script t, (Controller.submitted script).Nodup →
      (Controller.initial timing).run script = .ok t →
      ∀ id, t.radio.queuedIds.count id + t.radio.pendingId.toList.count id +
          t.journal.reportedIds.count id =
        if id ∈ Controller.submitted script then 1 else 0) ∧
    (∀ tuner rounds s, Service.Reaches timing tuner rounds s →
      (Service.clientIds rounds).Nodup →
      (s.ended = none → ∀ id,
        (id ∈ s.waiting ↔ id ∈ Service.awaitedIds rounds ∧
          (id ∈ s.receiver.radio.queuedIds ∨ s.receiver.radio.pendingId = some id)) ∧
        s.waiting.count id + s.answeredIds.count id =
          if id ∈ Service.awaitedIds rounds then 1 else 0) ∧
      (s.ended ≠ none → s.waiting = [] ∧ ∀ id, s.answeredIds.count id ≤
        if id ∈ Service.awaitedIds rounds then 1 else 0)) := by
  refine ⟨fun script t hids hrun ↦ Controller.run_once hids hrun,
    fun tuner rounds s hreach hids ↦ ?_⟩
  rcases hreach.tracks hids with ⟨hopen, htracks⟩ | ⟨hended, hwaiting, hanswered⟩
  · refine ⟨fun _ id ↦ ⟨htracks.mem_waiting id, ?_⟩, fun hended ↦ (hended hopen).elim⟩
    rw [htracks.answers, Service.count_awaitedIds hids]
  · refine ⟨fun hopen ↦ (hended hopen).elim, fun _ ↦ ⟨hwaiting, fun id ↦ ?_⟩⟩
    rw [← Service.count_awaitedIds hids]
    exact hanswered id

/-- A pause that follows a start is still to be reported while the start is in flight, and whoever
awaits the outcome of the start waits. -/
theorem start_in_flight_awaited_and_pause_open :
    (∃ t, (Controller.initial {}).run [(.ready, fun _ ↦ true),
        (.request ⟨some 1, .start .europeUs⟩, fun _ ↦ true),
        (.request ⟨some 2, .pause⟩, fun _ ↦ true)] = .ok t ∧
      t.radio.queuedIds.count 2 + t.radio.pendingId.toList.count 2 +
        t.journal.reportedIds.count 2 = 1) ∧
    (∃ s, Service.Reaches {} ⟨{ stations := [], searchPolls := 0 }, 0⟩
        [(.ready, false), (.request ⟨some 1, .start .europeUs⟩, true)] s ∧
      s.ended = none ∧ 1 ∈ s.waiting) := by
  constructor
  · obtain ⟨t, ht⟩ : ∃ t, (Controller.initial {}).run [(.ready, fun _ ↦ true),
        (.request ⟨some 1, .start .europeUs⟩, fun _ ↦ true),
        (.request ⟨some 2, .pause⟩, fun _ ↦ true)] = .ok t := ⟨_, rfl⟩
    have honce := (submitted_once_queued_pending_or_reported {}).1 _ t (by decide) ht 2
    exact ⟨t, ht, honce.trans (by decide)⟩
  · have hstart : Service.Reaches {} ⟨{ stations := [], searchPolls := 0 }, 0⟩ [] _ := .start
    have hreach := (hstart.round rfl .ready false).round rfl
      (.request ⟨some 1, .start .europeUs⟩) true
    have hwaits := ((submitted_once_queued_pending_or_reported {}).2 _ _ _ hreach (by decide)).1 rfl 1
    exact ⟨_, hreach, rfl, hwaits.1.mpr ⟨by decide, .inr (by decide)⟩⟩

end FmTuner
