import FmTuner.Proofs.Polling
import FmTuner.Proofs.ScanFollowups

/-!
# The order of arrival

Requests are numbered in the order in which they join the queue, and the queue stays in that order
through all that is dispatched past those that wait. `Turn.Ordered` ties the controller to what its
journal shows: which requests wait, in which state the radio is, and that none was overtaken but
those that the state deferred.
-/

namespace FmTuner

/-- The change of state that an entry announces. -/
def Entry.change? : Entry → Option (RadioState × RadioState)
  | .effect (.notify (.stateChanged old new)) => some (old, new)
  | _ => none

def Entry.arrival? : Entry → Option Queued
  | .queued q => some q
  | _ => none

def Entry.isDispatch : Entry → Bool
  | .dispatched .. => true
  | _ => false

namespace Journal

/-- The requests that have joined the queue, in order. -/
def arrived (j : Journal) : List Queued := j.filterMap Entry.arrival?

/-- The changes of state that were announced, in order, each with the state before it. -/
def changes (j : Journal) : List (RadioState × RadioState) := j.filterMap Entry.change?

/-- The state that was announced last. -/
def state (j : Journal) : RadioState := (j.changes.getLast?.map Prod.snd).getD .invalid

/-- A request is dispatched past others only if the state makes these wait. What the entry says of
the controller is what the earlier ones show. -/
def Yields (earlier : Journal) : Entry → Prop
  | .dispatched q _ c =>
      c.state = earlier.state ∧ c.queue = earlier.view.waiting ∧ q ∈ c.queue ∧
        route c.state q.request.operation ≠ .defer ∧
          ∀ r ∈ c.queue, r.ticket < q.ticket → route c.state r.request.operation = .defer
  | _ => True

variable {j k : Journal}

/-! ## What journals show, part by part -/

@[simp] theorem arrived_nil : arrived [] = [] := rfl

@[simp] theorem arrived_append (j k : Journal) : arrived (j ++ k) = arrived j ++ arrived k := by
  simp [arrived]

@[simp] theorem changes_append (j k : Journal) : changes (j ++ k) = changes j ++ changes k := by
  simp [changes]

theorem state_append (j k : Journal) :
    (j ++ k).state = (k.changes.getLast?.map Prod.snd).getD j.state := by
  rw [state, changes_append, List.getLast?_append]
  cases k.changes.getLast? <;> rfl

theorem arrived_eq_nil (h : ∀ e ∈ j, e.arrival? = none) : arrived j = [] := by
  simpa [arrived, List.filterMap_eq_nil_iff] using h

theorem changes_eq_nil (h : ∀ e ∈ j, e.change? = none) : changes j = [] := by
  simpa [changes, List.filterMap_eq_nil_iff] using h

theorem state_append_of_quiet (h : changes k = []) : (j ++ k).state = j.state := by
  rw [state_append, h]
  rfl

/-- Nothing leaves the queue but by a dispatch. -/
theorem foldl_waiting (h : ∀ e ∈ k, e.isDispatch = false) (v : ScanView) :
    (k.foldl ScanView.note v).waiting = v.waiting ++ k.arrived := by
  induction k generalizing v with
  | nil => simp
  | cons e rest ih =>
      rw [List.forall_mem_cons] at h
      rw [List.foldl_cons, ih h.2]
      have he : (v.note e).waiting = v.waiting ++ (arrived [e]) := by
        cases e with
        | dispatched => simp [Entry.isDispatch] at h
        | resolved p timedOut c =>
            rw [ScanView.note_resolved]
            split <;> exact (List.append_nil _).symm
        | effect f =>
            cases f with
            | notify n =>
                cases n with
                | stateChanged old new => cases new <;> exact (List.append_nil _).symm
                | _ => exact (List.append_nil _).symm
            | _ => exact (List.append_nil _).symm
        | queued => rfl
        | _ => exact (List.append_nil _).symm
      rw [he, List.append_assoc, ← arrived_append]
      rfl

/-- Plain entries neither join nor leave the queue. -/
theorem of_plain (h : ∀ e ∈ k, e.isPlain = true) :
    k.arrived = [] ∧ ∀ e ∈ k, e.isDispatch = false := by
  refine ⟨arrived_eq_nil fun e he ↦ ?_, fun e he ↦ ?_⟩ <;> cases e <;>
    first | rfl | simpa [Entry.isPlain] using h _ he

@[simp] theorem changes_ofReport (id : Option RequestId) (outcome : Outcome) :
    changes (ofReport id outcome) = [] := by
  cases id <;> rfl

@[simp] theorem changes_ofProgress (first : Nat) (p : Progress) :
    changes (ofProgress first p) = [] :=
  changes_eq_nil (by simp +contextual [ofProgress, or_imp, forall_and, Entry.change?])

theorem changes_notices {ns : List Notification} (h : ∀ n ∈ ns, n.isScanResult = true) :
    changes (ns.map fun n ↦ .effect (.notify n)) = [] := by
  refine changes_eq_nil fun e he ↦ ?_
  obtain ⟨n, hn, rfl⟩ := List.mem_map.mp he
  have hresult := h n hn
  cases n <;> first | rfl | simp [Notification.isScanResult] at hresult

@[simp] theorem changes_ofChange (old new : RadioState) :
    changes (ofChange old new) = if new = old then [] else [(old, new)] := by
  unfold ofChange
  split
  · rfl
  · cases new <;> rfl

@[simp] theorem changes_ofPoll (target : RadioState) (generation after : Nat) :
    changes (ofPoll target generation after) = [] := by
  unfold ofPoll
  split <;> rfl

@[simp] theorem changes_ofStart (p : Pending) : changes (ofStart p) = [] := by
  unfold ofStart
  split <;> rfl

@[simp] theorem changes_ofReadings (p : Pending) (a : Attributes) :
    changes (ofReadings p a) = [] := by
  unfold ofReadings
  split <;> split <;> (try split) <;> rfl

/-- The end of a transition announces the state that it leads to, if that is another. -/
@[simp] theorem changes_ofEnd (c : Controller) (p : Pending) (armed timedOut : Bool) :
    changes (ofEnd c p armed timedOut) =
      if (Turn.resolution p timedOut).1 = c.state then []
      else [(c.state, (Turn.resolution p timedOut).1)] := by
  have harmed : changes (if armed then [.effect .disarmTimeout] else []) = [] := by
    cases armed <;> rfl
  have hresolved : ∀ j, changes (.resolved p timedOut (c.resolved p timedOut) :: j) = changes j :=
    fun _ ↦ rfl
  rw [ofEnd, changes_append, hresolved]
  simp [harmed]

theorem state_change (old new : RadioState) (h : j.state = old) {k : Journal}
    (hk : changes k = if new = old then [] else [(old, new)]) : (j ++ k).state = new := by
  rw [state_append, hk]
  split
  next hnew => exact h.trans hnew.symm
  next => rfl

@[simp] theorem arrived_ofProgress (first : Nat) (p : Progress) :
    arrived (ofProgress first p) = followups first p.followups := by
  have hcall : arrived (ofCall p) = [] := (of_plain fun e he ↦ (silent_ofCall p e he).2).1
  have hqueued : ∀ qs : List Queued, arrived (qs.map .queued) = qs := fun qs ↦ by
    simp [arrived, List.filterMap_map, Function.comp_def, Entry.arrival?]
  rw [ofProgress_eq, arrived_append, hcall, hqueued, List.nil_append]

theorem not_dispatch_ofProgress (first : Nat) (p : Progress) :
    ∀ e ∈ ofProgress first p, e.isDispatch = false := by
  rw [ofProgress_eq, List.forall_mem_append]
  exact ⟨(of_plain fun e he ↦ (silent_ofCall p e he).2).2, by simp [Entry.isDispatch]⟩

theorem followups_tickets (first : Nat) (operations : List Operation) :
    (followups first operations).map Queued.ticket = List.range' first operations.length := by
  induction operations generalizing first with
  | nil => rfl
  | cons operation rest ih => simp [ih, List.range'_succ]

@[simp] theorem followups_length (first : Nat) (operations : List Operation) :
    (followups first operations).length = operations.length := by
  simpa using congrArg List.length (followups_tickets first operations)

end Journal

/-- What is announced at the beginning of a transition is the result of a scan. -/
theorem Plan.Built.isScanResult {timing : Timing} {operation : Operation} {a : Attributes}
    {scanMode : Option ScanMode} {plan : Plan} (h : Built timing a scanMode operation plan) :
    ∀ n ∈ plan.notices, n.isScanResult = true := by
  rcases h.notices with ⟨mode, aborted, -, hnotices⟩ | ⟨-, hnotices⟩
  · rw [hnotices, List.forall_mem_singleton]
    cases mode <;> rfl
  · rw [hnotices]
    exact List.forall_mem_nil _

namespace Turn

/-- What a turn keeps about the order of arrival. -/
structure Ordered (t : Turn) : Prop where
  tickets : t.journal.arrived.map Queued.ticket = List.range t.radio.arrivals
  queue : t.radio.queue = t.journal.view.waiting
  increasing : (t.radio.queue.map Queued.ticket).Pairwise (· < ·)
  recent : ∀ q ∈ t.radio.queue, q.ticket < t.radio.arrivals
  state : t.radio.state = t.journal.state
  yields : t.journal.Each Journal.Yields

variable {accepts : Call → Bool} {e : Option Event} {t u : Turn} {k : Journal}

/-- Whoever arrives queues behind all others. -/
theorem Ordered.extend (h : t.Ordered) (hjournal : u.journal = t.journal ++ k)
    (hk : ∀ e ∈ k, e.isDispatch = false)
    (hqueue : u.radio.queue = t.radio.queue ++ k.arrived)
    (htickets : k.arrived.map Queued.ticket = List.range' t.radio.arrivals k.arrived.length)
    (harrivals : u.radio.arrivals = t.radio.arrivals + k.arrived.length)
    (hstate : u.radio.state = (t.journal ++ k).state) : u.Ordered := by
  have hnew : ∀ ticket ∈ k.arrived.map Queued.ticket,
      t.radio.arrivals ≤ ticket ∧ ticket < u.radio.arrivals := by
    intro ticket hticket
    rw [htickets, List.mem_range'_1] at hticket
    rwa [harrivals]
  constructor
  · rw [hjournal, Journal.arrived_append, List.map_append, h.tickets, htickets, harrivals,
      List.range_eq_range', List.range_eq_range']
    simpa using List.range'_append_1 (s := 0) (m := t.radio.arrivals) (n := k.arrived.length)
  · rw [hjournal, hqueue, Journal.view_append, Journal.foldl_waiting hk, h.queue]
  · rw [hqueue, List.map_append, List.pairwise_append]
    refine ⟨h.increasing, ?_, fun first hfirst second hsecond ↦ ?_⟩
    · rw [htickets]
      exact List.pairwise_lt_range'
    · obtain ⟨q, hq, rfl⟩ := List.mem_map.mp hfirst
      exact (h.recent q hq).trans_le (hnew second hsecond).1
  · intro q hq
    rw [hqueue, List.mem_append] at hq
    rcases hq with hq | hq
    · rw [harrivals]
      exact (h.recent q hq).trans_le (Nat.le_add_right _ _)
    · exact (hnew q.ticket (List.mem_map_of_mem hq)).2
  · rw [hjournal]
    exact hstate
  · rw [hjournal]
    refine Journal.each_append h.yields fun before entry after hsplit ↦ ?_
    have hentry := hk entry (by simp [hsplit])
    cases entry with
    | dispatched => simp [Entry.isDispatch] at hentry
    | _ => trivial

theorem Ordered.nodup (h : t.Ordered) : t.radio.queue.Nodup :=
  .of_map _ (h.increasing.imp ne_of_lt)

/-- The request that goes next has overtaken only those that wait in front of it. -/
theorem Ordered.yields_of_next (h : t.Ordered) {q : Queued} {passed rest : List Queued}
    (hqueue : t.radio.queue = passed ++ q :: rest)
    (hpassed : ∀ r ∈ passed, t.radio.defers r = true) (hq : t.radio.defers q = false) :
    t.journal.Yields (.dispatched q passed t.radio) := by
  refine ⟨h.state, h.queue, by simp [hqueue], by simpa [Controller.defers] using hq,
    fun r hr hlt ↦ ?_⟩
  rw [hqueue, List.mem_append, List.mem_cons] at hr
  rcases hr with hr | rfl | hr
  · simpa [Controller.defers] using hpassed r hr
  · exact absurd hlt (lt_irrefl _)
  · have hincreasing := h.increasing
    rw [hqueue, List.map_append, List.pairwise_append, List.map_cons, List.pairwise_cons]
      at hincreasing
    exact absurd hlt (hincreasing.2.1.1 r.ticket (List.mem_map_of_mem hr)).not_gt

theorem Ordered.take (h : t.Ordered) {q : Queued} {passed rest : List Queued}
    (hqueue : t.radio.queue = passed ++ q :: rest)
    (hpassed : ∀ r ∈ passed, t.radio.defers r = true) (hq : t.radio.defers q = false) :
    (t.take q passed rest).Ordered := by
  have hkept : (passed ++ rest).Sublist t.radio.queue := by
    rw [hqueue]
    exact (List.Sublist.refl _).append (List.sublist_cons_self q rest)
  have hnodup := h.nodup
  rw [hqueue, List.nodup_middle, List.nodup_cons] at hnodup
  constructor
  · have harrived : Journal.arrived [.dispatched q passed t.radio] = [] := rfl
    rw [take_journal, Journal.arrived_append, harrived, List.append_nil]
    exact h.tickets
  · rw [take_journal, Journal.view_append]
    change passed ++ rest = t.journal.view.waiting.erase q
    rw [← h.queue, hqueue, List.erase_append_right _ fun hmem ↦
      hnodup.1 (List.mem_append_left _ hmem), List.erase_cons_head]
  · exact h.increasing.sublist (hkept.map _)
  · exact fun r hr ↦ h.recent r (hkept.subset hr)
  · rw [take_journal, Journal.state_append_of_quiet rfl]
    exact h.state
  · rw [take_journal]
    refine Journal.each_append h.yields fun before entry after hsplit ↦ ?_
    obtain ⟨rfl, rfl⟩ := eq_of_singleton_split hsplit
    simpa using h.yields_of_next hqueue hpassed hq

theorem Taken.ordered {r : Request} (htaken : Taken e t r u) (h : t.Ordered) : u.Ordered := by
  cases htaken with
  | queued _ hqueue hpassed hq => exact h.take hqueue hpassed hq
  | poll => exact h

/-- Nobody arrives while what happens is plain. -/
theorem Ordered.of_plain (h : t.Ordered) (hjournal : u.journal = t.journal ++ k)
    (hk : ∀ e ∈ k, e.isPlain = true) (hqueue : u.radio.queue = t.radio.queue)
    (harrivals : u.radio.arrivals = t.radio.arrivals)
    (hstate : u.radio.state = (t.journal ++ k).state) : u.Ordered := by
  obtain ⟨harrived, hdispatch⟩ := Journal.of_plain hk
  refine h.extend hjournal hdispatch ?_ ?_ ?_ hstate <;> simp [harrived, hqueue, harrivals]

theorem Ordered.launch (h : t.Ordered) (p : Pending) {notices : List Notification}
    (hnotices : ∀ n ∈ notices, n.isScanResult = true) : (t.launch p notices).Ordered := by
  have harrived : Journal.arrived
      (.begun p t.radio :: notices.map fun n ↦ .effect (.notify n)) = [] :=
    Journal.arrived_eq_nil (by simp [Entry.arrival?])
  refine h.extend (launch_journal ..) (by simp [Entry.isDispatch]) ?_ ?_ ?_ ?_
  · simp [harrived]
  · simp [harrived]
  · simp [harrived]
  · rw [Journal.state_append_of_quiet]
    · exact h.state
    · exact Journal.changes_notices hnotices

theorem Ordered.hold (h : t.Ordered) (p : Pending) (progress : Progress) :
    (t.hold p progress).Ordered := by
  refine h.extend (hold_journal ..) (Journal.not_dispatch_ofProgress _ _) ?_ ?_ ?_ ?_
  · simp
  · simpa using Journal.followups_tickets _ _
  · simp
  · rw [Journal.state_append_of_quiet (Journal.changes_ofProgress _ _)]
    simpa using h.state

theorem Ordered.settle (h : t.Ordered) (p : Pending) (progress : Progress)
    (armed timedOut : Bool) : (t.settle p progress armed timedOut).Ordered := by
  obtain ⟨harrived, hdispatch⟩ := Journal.of_plain
    (Journal.plain_ofEnd (t.settling progress) { p with action := progress.action } armed timedOut)
  have hjournal := settle_journal (t := t) p progress armed timedOut
  rw [List.append_assoc] at hjournal
  refine h.extend hjournal ?_ ?_ ?_ ?_ ?_
  · rw [List.forall_mem_append]
    exact ⟨Journal.not_dispatch_ofProgress _ _, hdispatch⟩
  · simp [harrived, Controller.resolved]
  · simpa [harrived] using Journal.followups_tickets _ _
  · simp [harrived, Controller.resolved]
  · refine (Journal.state_change t.radio.state _ h.state.symm ?_).symm
    simp [Controller.resolved, settling]

theorem Move.ordered (hmove : Move accepts e t u) (h : t.Ordered) : u.Ordered := by
  cases hmove with
  | ready hinvalid =>
      have hjournal := enter_journal (t := t) .idle
      rw [List.append_assoc] at hjournal
      refine h.of_plain hjournal ?_ ?_ ?_ ?_
      · rw [List.forall_mem_append]
        exact ⟨Journal.plain_ofChange _ _, fun e he ↦ (Journal.silent_ofPoll _ _ _ e he).2⟩
      · simp
      · simp
      · refine (Journal.state_change t.radio.state _ h.state.symm ?_).symm
        simp
  | arrive r =>
      refine h.extend (enqueue_journal ..) (by simp [Entry.isDispatch]) rfl rfl rfl ?_
      rw [Journal.state_append_of_quiet rfl]
      exact h.state
  | decline htaken =>
      have hu := htaken.ordered h
      refine hu.of_plain (report_journal ..)
        (fun e he ↦ (Journal.silent_ofReport _ _ e he).2) ?_ ?_ ?_
      · simp
      · simp
      · rw [Journal.state_append_of_quiet (Journal.changes_ofReport _ _)]
        simpa using hu.state
  | @begin _ _ v r destination plan progress htaken hroute hplan hbegins =>
      have hu := ((htaken.ordered h).launch (v.radio.transition r destination plan.action)
        (Plan.built_of_build hplan).isScanResult).hold
          (v.radio.transition r destination plan.action) progress
      refine hu.of_plain (emit_journal ..) (by simp [Entry.isPlain]) rfl rfl ?_
      rw [Journal.state_append_of_quiet rfl]
      exact hu.state
  | flash htaken hroute hplan hbegins =>
      exact ((htaken.ordered h).launch _ (Plan.built_of_build hplan).isScanResult).settle _ _ _ _
  | advance => exact h.hold _ _
  | finish => exact h.settle _ _ _ _
  | expire => exact h.settle _ _ _ _

end Turn

namespace Controller

variable {timing : Timing} {script : List (Event × (Call → Bool))} {t : Turn}

theorem initial_ordered (timing : Timing) : Turn.Ordered { radio := initial timing } := by
  refine ⟨rfl, rfl, .nil, by simp [initial], rfl, fun before e after hsplit ↦ ?_⟩
  simp at hsplit

theorem run_ordered (h : (initial timing).run script = .ok t) : t.Ordered :=
  (run_induction (initial_ordered timing) (fun _ _ _ _ _ ht _ _ hmove ↦ hmove.ordered ht)
    (fun _ _ _ ht _ hmove ↦ hmove.ordered ht) h).1

/-- The queue holds what has arrived and not left, in the order of arrival. Whenever a request is
dispatched, all that wait although they arrived before it are such as the state of the radio at that
moment defers. -/
theorem overtaken_requests_are_deferred (h : (initial timing).run script = .ok t) :
    t.journal.arrived.map Queued.ticket = List.range t.journal.arrived.length ∧
    t.radio.queue = t.journal.view.waiting ∧
    (t.radio.queue.map Queued.ticket).Pairwise (· < ·) ∧
    ∀ (before : Journal) q passed c after, t.journal = before ++ .dispatched q passed c :: after →
      c.state = before.state ∧ c.queue = before.view.waiting ∧ q ∈ c.queue ∧
        route c.state q.request.operation ≠ .defer ∧
          ∀ r ∈ c.queue, r.ticket < q.ticket → route c.state r.request.operation = .defer := by
  have hordered := run_ordered h
  refine ⟨?_, hordered.queue, hordered.increasing, fun before q passed c after hsplit ↦ ?_⟩
  · have hlength : t.journal.arrived.length = t.radio.arrivals := by
      simpa using congrArg List.length hordered.tickets
    rw [hlength, hordered.tickets]
  · exact hordered.yields before (.dispatched q passed c) after hsplit

end Controller

/-- The place of a request that is dispatched in the order of arrival, and the places of all that
wait at that moment. -/
def Entry.places? : Entry → Option (Nat × List Nat)
  | .dispatched q _ c => some (q.ticket, c.queue.map Queued.ticket)
  | _ => none

namespace Controller

/-- A property that is set during a search overtakes a frequency, which has to wait. -/
theorem threshold_overtakes_frequency :
    ∃ t before q passed c after, (initial {}).run (searchBegun ++
        [(.request ⟨some 1, .setFrequency ⟨100000⟩⟩, fun _ ↦ true),
          (.request ⟨some 2, .setThreshold 300⟩, fun _ ↦ true)]) = .ok t ∧
      t.journal = before ++ .dispatched q passed c :: after ∧ q.ticket = 3 ∧
        c.queue.map Queued.ticket = [2, 3] ∧
          ∀ r ∈ c.queue, r.ticket < 3 → route c.state r.request.operation = .defer := by
  obtain ⟨t, ht⟩ : ∃ t, (initial {}).run (searchBegun ++
      [(.request ⟨some 1, .setFrequency ⟨100000⟩⟩, fun _ ↦ true),
        (.request ⟨some 2, .setThreshold 300⟩, fun _ ↦ true)]) = .ok t := ⟨_, rfl⟩
  obtain ⟨e, he, hplaces⟩ : ∃ e ∈ t.journal, e.places? = some (3, [2, 3]) := by
    have hany : t.journal.any (fun e ↦ e.places? = some (3, [2, 3])) = true := by
      cases ht
      decide
    simpa using hany
  cases e with
  | dispatched q passed c =>
      obtain ⟨before, after, hsplit⟩ := List.append_of_mem he
      simp only [Entry.places?, Option.some.injEq, Prod.mk.injEq] at hplaces
      have hdeferred := (overtaken_requests_are_deferred ht).2.2.2 before q passed c after hsplit
      rw [hplaces.1] at hdeferred
      exact ⟨t, before, q, passed, c, after, ht, hsplit, hplaces.1, hplaces.2,
        hdeferred.2.2.2.2⟩
  | _ => simp [Entry.places?] at hplaces

end Controller

end FmTuner
