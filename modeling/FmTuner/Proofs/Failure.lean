import FmTuner.Proofs.AttributeLog
import FmTuner.Proofs.Timeouts

/-!
# The error state

A transition that fails takes the radio into the error state, where everything is refused. So the
step in which it fails goes on to refuse all that waits, one request after the other in the order of
the queue, and no event does anything after it but bring another request to refuse.
-/

namespace FmTuner

theorem route_error (operation : Operation) : route .error operation = .reject := by
  cases operation <;> rfl

/-- What the refusal of waiting requests leaves on record, in a controller `c` that would otherwise
be at rest. -/
def Controller.refusals (c : Controller) : List Queued → Journal
  | [] => []
  | q :: rest =>
      .dispatched q [] { c with queue := q :: rest } ::
        Journal.ofReport q.request.id .notHandled ++ c.refusals rest

theorem Journal.effects_ofReport (id : Option RequestId) (outcome : Outcome) :
    effects (ofReport id outcome) = id.toList.map fun id ↦ .complete id outcome := by
  cases id <;> rfl

theorem Controller.refusals_views (c : Controller) (queue : List Queued) :
    (c.refusals queue).sent = [] ∧ (c.refusals queue).effects =
      (queue.filterMap fun q ↦ q.request.id).map fun id ↦ .complete id .notHandled := by
  induction queue with
  | nil => exact ⟨rfl, rfl⟩
  | cons q rest ih =>
      have hsent : Journal.sent (Journal.ofReport q.request.id .notHandled) = [] := by
        cases q.request.id <;> rfl
      have hdispatched : ∀ j : Journal,
          Journal.sent (.dispatched q [] { c with queue := q :: rest } :: j) = j.sent ∧
            Journal.effects (.dispatched q [] { c with queue := q :: rest } :: j) = j.effects :=
        fun _ ↦ ⟨rfl, rfl⟩
      rw [refusals, List.cons_append, (hdispatched _).1, (hdispatched _).2]
      constructor
      · rw [Journal.sent_append, hsent, ih.1, List.append_nil]
      · rw [Journal.effects_append, ih.2, Journal.effects_ofReport]
        cases hid : q.request.id <;> simp [hid]

theorem Journal.waits_of_not_dispatched {k : Journal} {v : ScanView} {q : Queued}
    (hq : q ∈ v.waiting) (hk : ∀ passed c, .dispatched q passed c ∉ k) :
    q ∈ (k.foldl ScanView.note v).waiting := by
  induction k generalizing v with
  | nil => exact hq
  | cons e rest ih =>
      rw [List.foldl_cons]
      refine ih ?_ fun passed c hmem ↦ hk passed c (List.mem_cons_of_mem _ hmem)
      cases e with
      | queued r => exact List.mem_append_left _ hq
      | dispatched r passed c =>
          have hne : q ≠ r := by
            rintro rfl
            exact hk passed c (List.mem_cons_self ..)
          exact (List.mem_erase_of_ne hne).mpr hq
      | resolved p timedOut c =>
          rw [ScanView.note_resolved]
          split <;> exact hq
      | effect f =>
          cases f with
          | notify n =>
              cases n with
              | stateChanged old new => cases new <;> exact hq
              | _ => exact hq
          | _ => exact hq
      | _ => exact hq

/-! ## Entering the error state -/

namespace Turn

variable {accepts : Call → Bool} {e : Option Event} {t u : Turn} {p : Pending} {timedOut : Bool}
  {front : Journal} {c : Controller}

/-- The transition `p` has failed and left the controller `c`. Once the rest of the queue is refused
too, all of it has been, in its order. -/
structure Breaks (t : Turn) (front : Journal) (p : Pending) (timedOut : Bool) (c : Controller) :
    Prop where
  state : c.state = .error
  pending : c.pending = none
  radio : t.radio = { c with queue := t.radio.queue }
  journal : t.journal ++ c.refusals t.radio.queue =
    front ++ .resolved p timedOut c :: Journal.ofReport p.request (resolution p timedOut).2 ++
      c.refusals c.queue

theorem Taken.state {r : Request} (htaken : Taken e t r u) :
    u.radio.state = t.radio.state := by
  cases htaken <;> rfl

theorem breaks_settle {progress : Progress} {armed : Bool}
    (hstate : (t.settle p progress armed timedOut).radio.state = .error) :
    (t.settle p progress armed timedOut).Breaks
      (t.journal ++ Journal.ofProgress t.radio.arrivals progress ++
        Journal.ofFinish (t.settling progress) { p with action := progress.action } armed timedOut)
      { p with action := progress.action } timedOut (t.settle p progress armed timedOut).radio := by
  have hradio : (t.settle p progress armed timedOut).radio =
      (t.settling progress).resolved { p with action := progress.action } timedOut :=
    settle_radio ..
  refine ⟨hstate, by simp [Controller.resolved], rfl, ?_⟩
  rw [settle_journal, Journal.ofEnd_eq, ← hradio]
  simp

theorem Move.breaks (hmove : Move accepts e t u) (ht : t.radio.state ≠ .error)
    (hu : u.radio.state = .error) : ∃ front p timedOut c, u.Breaks front p timedOut c := by
  cases hmove with
  | ready => simp at hu
  | arrive => exact (ht hu).elim
  | decline htaken =>
      rw [report_radio, htaken.state] at hu
      exact (ht hu).elim
  | begin htaken =>
      rw [emit_radio, hold_radio] at hu
      exact (ht (htaken.state.symm.trans hu)).elim
  | advance =>
      rw [hold_radio] at hu
      exact (ht hu).elim
  | flash | finish | expire => exact ⟨_, _, _, _, breaks_settle hu⟩

/-- In the error state whatever leaves the queue is its head, and is refused. -/
theorem Breaks.next (h : t.Breaks front p timedOut c) (hmove : Move accepts none t u) :
    u.Breaks front p timedOut c := by
  have hstate : t.radio.state = .error := by rw [h.radio, h.state]
  cases hmove with
  | decline htaken hdecline =>
      cases htaken with
      | @queued _ q passed rest hpending hqueue hpassed =>
          have hnone : passed = [] := by
            refine List.eq_nil_iff_forall_not_mem.mpr fun r hr ↦ ?_
            have hdefers := hpassed r hr
            simp [Controller.defers, hstate, route_error] at hdefers
          subst hnone
          have hrefused : ∀ outcome, (t.take q [] rest).radio.Declines q.request.operation outcome →
              outcome = .notHandled := by
            intro outcome hdeclines
            cases hdeclines with
            | ignored hroute => simp [hstate, route_error] at hroute
            | rejected | unplanned => rfl
          have hjournal := h.journal
          rw [hqueue, List.nil_append, Controller.refusals] at hjournal
          have hshown : t.radio = { c with queue := q :: rest } := by
            rw [h.radio, hqueue]
            rfl
          refine ⟨h.state, h.pending, ?_, ?_⟩
          · rw [report_radio, take_radio, hshown]
          · rw [hrefused _ hdecline, report_journal, take_journal, report_radio, take_radio,
              List.nil_append, ← hjournal, hshown]
            simp
  | begin htaken hroute | flash htaken hroute =>
      simp [htaken.state, hstate, route_error] at hroute

end Turn

namespace Controller

variable {accepts : Call → Bool} {c : Controller} {event : Event} {u : Turn}

theorem queue_of_error (hrested : c.Rested) (hstate : c.state = .error)
    (hpending : c.pending = none) : c.queue = [] := by
  refine List.eq_nil_iff_forall_not_mem.mpr fun q hq ↦ ?_
  have hdefers := hrested hpending q hq
  simp [defers, hstate, route_error] at hdefers

/-- A step that leads into the error state refuses all that waits there. -/
theorem step_breaks (hsteady : c.Steady) (hstate : c.state ≠ .error)
    (h : c.step accepts event = .ok u) (hu : u.radio.state = .error) :
    ∃ (front : Journal) (p : Pending) (timedOut : Bool) (d : Controller),
      d.state = .error ∧ d.pending = none ∧ u.radio = { d with queue := [] } ∧
        u.journal = front ++ .resolved p timedOut d ::
          Journal.ofReport p.request (Turn.resolution p timedOut).2 ++ d.refusals d.queue := by
  rcases step_moves hsteady h with ⟨-, -, rfl⟩ | ⟨v, hcause, hmoves, hrested⟩
  · exact (hstate hu).elim
  · -- Once a move has led into the error state, the moves that are left only refuse.
    let Q : Turn → Prop := fun t ↦
      t.radio.state ≠ .error ∨ ∃ front p timedOut d, t.Breaks front p timedOut d
    have hmove : ∀ {e : Option Event} {t w : Turn}, t.radio.state ≠ .error →
        Turn.Move accepts e t w → Q w := by
      intro e t w ht hmove
      by_cases hw : w.radio.state = .error
      · exact .inr (hmove.breaks ht hw)
      · exact .inl hw
    have hv : Q v := by
      rcases hcause with ⟨-, rfl⟩ | hcause
      · exact .inl hstate
      · exact hmove hstate hcause
    have hend : Q u := Turn.keeps_of_moves (fun t w ht hnext ↦ by
      rcases ht with ht | ⟨front, p, timedOut, d, ht⟩
      · exact hmove ht hnext
      · exact .inr ⟨front, p, timedOut, d, ht.next hnext⟩) hmoves hv
    obtain ⟨front, p, timedOut, d, hbreaks⟩ := hend.resolve_left fun hne ↦ hne hu
    have hpending : u.radio.pending = none := by rw [hbreaks.radio, hbreaks.pending]
    have hqueue := queue_of_error hrested hu hpending
    have hjournal := hbreaks.journal
    rw [hqueue, refusals, List.append_nil] at hjournal
    refine ⟨front, p, timedOut, d, hbreaks.state, hbreaks.pending, ?_, hjournal⟩
    rw [← hqueue]
    exact hbreaks.radio

/-! ## In the error state -/

def refusal (c : Controller) : Event → Turn
  | .request r =>
      { radio := { c with arrivals := c.arrivals + 1 }
        journal := .queued ⟨c.arrivals, r⟩ ::
          refusals { c with arrivals := c.arrivals + 1 } [⟨c.arrivals, r⟩] }
  | _ => { radio := c }

theorem refusal_views (c : Controller) (event : Event) :
    (c.refusal event).radio = { c with arrivals := (c.refusal event).radio.arrivals } ∧
      (c.refusal event).journal.sent = [] ∧
        (c.refusal event).journal.effects =
          event.client?.toList.map fun id ↦ .complete id .notHandled := by
  cases event with
  | request r =>
      let q : Queued := ⟨c.arrivals, r⟩
      obtain ⟨hsent, heffects⟩ :=
        refusals_views { c with arrivals := c.arrivals + 1 } [q]
      refine ⟨rfl, hsent, heffects.trans ?_⟩
      cases hid : r.id <;> simp [q, Event.client?, hid]
  | _ => exact ⟨rfl, rfl, rfl⟩

theorem step_of_error (hstate : c.state = .error) (hpending : c.pending = none)
    (hqueue : c.queue = []) (accepts : Call → Bool) (event : Event) :
    c.step accepts event = .ok (c.refusal event) := by
  have hrested : c.Rested := fun _ q hq ↦ by simp [hqueue] at hq
  cases event with
  | ready =>
      rw [step, if_pos ⟨rfl, by simp [hstate]⟩]
      rfl
  | request r =>
      rw [step, if_neg (by simp)]
      simp [Turn.react, Turn.enqueue, Turn.drain, Turn.drainWith, Turn.dispatch, Turn.note,
        Turn.report, Turn.emit, bind, Except.bind, hstate, hpending, hqueue, defers, route_error,
        refusal, refusals]
      cases r.id <;> simp [Journal.ofReport]
  | callback callback => exact step_callback_of_none hrested hpending callback accepts
  | timeout id =>
      have hexpire : Turn.expire { radio := c } id = .ok { radio := c } := by
        rw [Turn.expire, hpending]
      rw [step, if_neg (by simp), Turn.react, hexpire]
      exact Turn.drainWith_of_rested hrested _
  | pollDue generation =>
      exact step_pollDue_of_ignores hrested (.inr (.inr (.inl (by simp [hstate]))))

theorem pending_of_error {t : Turn} (haccounts : t.Accounts) (hstate : t.radio.state = .error) :
    t.radio.pending = none := by
  -- A transition in flight was accepted in the state that the radio is in.
  refine Option.eq_none_iff_forall_ne_some.mpr fun p hp ↦ ?_
  obtain ⟨x, before, rounds, next, rest, hrecords, -⟩ := haccounts.aboard p hp
  have hroute := hrecords.valid.route
  rw [← hrecords.state, hstate, route_error] at hroute
  cases hroute

/-- From the error state on, a run does nothing but number and refuse the requests that it
brings. -/
theorem run_of_error (hstate : c.state = .error) (hpending : c.pending = none)
    (hqueue : c.queue = []) (script : List (Event × (Call → Bool))) :
    ∃ v, c.run script = .ok v ∧ v.radio = { c with arrivals := v.radio.arrivals } ∧
      v.journal.sent = [] ∧
        v.journal.effects = (submitted script).map fun id ↦ .complete id .notHandled := by
  induction script generalizing c with
  | nil => exact ⟨{ radio := c }, rfl, rfl, rfl, rfl⟩
  | cons entry rest ih =>
      obtain ⟨event, accepts⟩ := entry
      obtain ⟨harrivals, hsent, heffects⟩ := refusal_views c event
      obtain ⟨v, hv, hradio, hvsent, hveffects⟩ := ih (c := (c.refusal event).radio)
        (by rw [harrivals, hstate]) (by rw [harrivals, hpending]) (by rw [harrivals, hqueue])
      refine ⟨{ v with journal := (c.refusal event).journal ++ v.journal }, ?_, ?_, ?_, ?_⟩
      · rw [run, step_of_error hstate hpending hqueue]
        simp [bind, Except.bind, hv]
      · rw [harrivals] at hradio
        exact hradio
      · rw [Journal.sent_append, hsent, hvsent, List.append_nil]
      · rw [Journal.effects_append, heffects, hveffects]
        cases hclient : event.client? <;> simp [submitted, hclient]

end Controller

/-! ## Faults -/

namespace Turn

variable {accepts : Call → Bool} {t : Turn} {crash : Crash}

theorem dispatch_crash {r : Request} (h : t.dispatch accepts r = .error crash) :
    crash.state = t.radio.state ∧ t.radio.state ≠ .error := by
  have hstate : t.radio.state ≠ .error := by
    intro herror
    rw [dispatch, herror, route_error] at h
    cases h
  refine ⟨?_, hstate⟩
  rw [dispatch] at h
  split at h
  next => simp at h
  next => simp at h
  next => simp at h
  next =>
    split at h
    next => rw [← Except.error.inj h]
    next => simp at h
    next =>
      rw [begin_eq] at h
      split at h
      next => rw [← Except.error.inj h]
      next =>
        dsimp only at h
        split at h <;> simp at h

theorem drainWith_crash (fuel : Nat) (h : t.drainWith accepts fuel = .error crash) :
    crash.state ≠ .error := by
  induction fuel generalizing t with
  | zero => simp [drainWith] at h
  | succ fuel ih =>
      rw [drainWith] at h
      split at h
      next => simp at h
      next =>
        split at h
        next => simp at h
        next q rest hdrop =>
          simp only [bind, Except.bind] at h
          split at h
          next hdispatch =>
            obtain ⟨hcrash, hstate⟩ := dispatch_crash hdispatch
            rw [← Except.error.inj h, hcrash]
            exact hstate
          next => exact ih h

theorem react_crash {event : Event} (hpending : t.radio.state = .error → t.radio.pending = none)
    (h : t.react accepts event = .error crash) : crash.state ≠ .error := by
  have hflight : ∀ {p : Pending}, t.radio.pending = some p → t.radio.state ≠ .error := by
    intro p hp hstate
    simp [hpending hstate] at hp
  cases event with
  | ready => simp [react] at h
  | request r => simp [react] at h
  | callback callback =>
      rw [react, hear] at h
      split at h
      next => simp at h
      next p hp =>
        split at h
        next =>
          rw [← Except.error.inj h]
          exact hflight hp
        next =>
          dsimp only at h
          split at h <;> simp at h
  | timeout id =>
      rw [react, expire] at h
      split at h
      next => simp at h
      next p hp =>
        split at h
        next => simp at h
        next =>
          split at h
          next =>
            rw [← Except.error.inj h]
            exact hflight hp
          next => simp at h
  | pollDue generation =>
      rw [react, poll] at h
      split at h
      next => simp at h
      next =>
        split at h
        next => simp at h
        next =>
          obtain ⟨hcrash, hstate⟩ := dispatch_crash h
          rw [hcrash]
          exact hstate

end Turn

namespace Controller

variable {accepts : Call → Bool} {c : Controller} {event : Event}

/-- No step faults once it has led into the error state. -/
theorem step_crash {crash : Crash} (hpending : c.state = .error → c.pending = none)
    (h : c.step accepts event = .error crash) : crash.state ≠ .error := by
  rw [step] at h
  split at h
  next => simp at h
  next =>
    simp only [bind, Except.bind] at h
    split at h
    next hreact =>
      rw [← Except.error.inj h]
      exact Turn.react_crash hpending hreact
    next => exact Turn.drainWith_crash _ h

variable {timing : Timing} {script : List (Event × (Call → Bool))} {t : Turn}

/-- The step in which the radio fails ends with nothing in flight and nobody in the queue: whatever
waits there when the transition has ended is refused, one request after the other. So every request
that waited before the step has left the queue, and every client that waited, was in flight or came
with the event has been told how its request ended. No fault can cut that short. From then on no run
faults; it only numbers and refuses the requests that it brings, each in its own step, with no call
to the chip and no other effect. -/
theorem error_refuses_all (h : (initial timing).run script = .ok t) :
    (t.radio.state ≠ .error → ∀ event accepts,
      (∀ crash, t.radio.step accepts event = .error crash → crash.state ≠ .error) ∧
      ∀ u, t.radio.step accepts event = .ok u → u.radio.state = .error →
        u.radio.queue = [] ∧ u.radio.pending = none ∧
        (∀ q ∈ t.radio.queue, ∃ passed c, .dispatched q passed c ∈ u.journal) ∧
        (∃ (front : Journal) (p : Pending) (timedOut : Bool) (d : Controller),
          d.state = .error ∧ u.radio = { d with queue := [] } ∧
          u.journal = front ++ .resolved p timedOut d ::
            Journal.ofReport p.request (Turn.resolution p timedOut).2 ++ d.refusals d.queue) ∧
        u.journal.reportedIds.Perm
          (t.radio.queuedIds ++ t.radio.pendingId.toList ++ event.client?.toList)) ∧
    (t.radio.state = .error →
      t.radio.queue = [] ∧ t.radio.pending = none ∧ t.radio.scanMode = none ∧
      (∀ event accepts, ∃ u, t.radio.step accepts event = .ok u ∧
        u.journal.effects = event.client?.toList.map fun id ↦ .complete id .notHandled) ∧
      ∀ more, ∃ v, t.radio.run more = .ok v ∧
        v.radio = { t.radio with arrivals := v.radio.arrivals } ∧ v.journal.sent = [] ∧
          v.journal.effects = (submitted more).map fun id ↦ .complete id .notHandled) := by
  have haccounts := run_accounts h
  obtain ⟨-, hsteady, hrested⟩ := run_paced h
  refine ⟨fun hstate event accepts ↦ ⟨fun crash hcrash ↦ ?_, fun u hstep hu ↦ ?_⟩, fun hstate ↦ ?_⟩
  · exact step_crash (pending_of_error haccounts) hcrash
  · obtain ⟨front, p, timedOut, d, hd, hpending, hradio, hjournal⟩ :=
      step_breaks hsteady hstate hstep hu
    have hqueue : u.radio.queue = [] := by rw [hradio]
    have hnone : u.radio.pending = none := by rw [hradio, hpending]
    refine ⟨hqueue, hnone, fun q hq ↦ ?_, ⟨front, p, timedOut, d, hd, hradio, hjournal⟩, ?_⟩
    · have hlater := (run_ordered (run_snoc h hstep)).queue
      rw [hqueue, Journal.view_append] at hlater
      by_contra hleft
      simp only [not_exists] at hleft
      have hwaits := Journal.waits_of_not_dispatched ((run_ordered h).queue ▸ hq) hleft
      simp [← hlater] at hwaits
    · -- What was open before the step or came with it is reported in it, for nothing is open after.
      refine List.perm_iff_count.mpr fun id ↦ ?_
      have htally := step_tally hsteady hstep id
      simpa [openCount, queuedIds, pendingId, hqueue, hnone, Nat.add_assoc] using htally
  · have hpending := pending_of_error haccounts hstate
    have hqueue := queue_of_error hrested hstate hpending
    have hscan : t.radio.scanMode = none := haccounts.scope (by simp [hstate])
    refine ⟨hqueue, hpending, hscan, fun event accepts ↦ ?_, run_of_error hstate hpending hqueue⟩
    exact ⟨_, step_of_error hstate hpending hqueue accepts event,
      (refusal_views t.radio event).2.2⟩

/-- A search whose poll runs out of time while two clients wait for its end, with a request and a
late callback afterwards. -/
theorem poll_timeout_refuses_all :
    ∃ t u, (initial {}).run (searchBegun ++
        [(.request ⟨some 1, .setFrequency ⟨100000⟩⟩, fun _ ↦ true), (.pollDue 2, fun _ ↦ true),
          (.request ⟨some 2, .scanDown⟩, fun _ ↦ true)]) = .ok t ∧
      t.radio.step (fun _ ↦ true) (.timeout 3) = .ok u ∧ u.radio.queue = [] ∧
      u.journal.reportedIds.Perm [1, 2] ∧
      ∃ v, u.radio.run [(.request ⟨some 3, .reset⟩, fun _ ↦ true),
          (.callback (.vendor 0xfc15 [0, 18, 1, 65, 0]), fun _ ↦ true)] = .ok v ∧
        v.journal.sent = [] ∧ v.journal.effects = [.complete 3 .notHandled] := by
  obtain ⟨t, ht⟩ : ∃ t, (initial {}).run (searchBegun ++
      [(.request ⟨some 1, .setFrequency ⟨100000⟩⟩, fun _ ↦ true), (.pollDue 2, fun _ ↦ true),
        (.request ⟨some 2, .scanDown⟩, fun _ ↦ true)]) = .ok t := ⟨_, rfl⟩
  obtain ⟨u, hu⟩ : ∃ u, t.radio.step (fun _ ↦ true) (.timeout 3) = .ok u := by
    cases ht
    exact ⟨_, rfl⟩
  have hstates : t.radio.state ≠ .error ∧ u.radio.state = .error ∧
      t.radio.queuedIds ++ t.radio.pendingId.toList = [1, 2] := by
    cases ht
    cases hu
    decide
  obtain ⟨hqueue, -, -, -, hperm⟩ := ((error_refuses_all ht).1 hstates.1 _ _).2 u hu hstates.2.1
  obtain ⟨v, hv, -, hsent, heffects⟩ := ((error_refuses_all (run_snoc ht hu)).2 hstates.2.1).2.2.2.2
    [(.request ⟨some 3, .reset⟩, fun _ ↦ true),
      (.callback (.vendor 0xfc15 [0, 18, 1, 65, 0]), fun _ ↦ true)]
  rw [hstates.2.2] at hperm
  exact ⟨t, u, ht, hu, hqueue, hperm, v, hv, hsent, heffects⟩

end Controller

end FmTuner
