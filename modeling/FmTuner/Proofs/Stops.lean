import FmTuner.Proofs.StopViews

/-!
# Stopped scans

A stop takes effect through a follow-up that waits behind whatever is queued by then. Until it has
been carried out the radio finds no rest, so that it is not polled again. But a step to the next
channel that waits in front of it is still taken, and starts the search anew.
-/

namespace FmTuner

/-! ## What a turn keeps about stops -/

namespace Turn

/-- How far the radio has come with what waited when the stop ended and left it as `c`. -/
inductive Course (t : Turn) (c : Controller) (during : Journal) : Prop where
  | ahead (hdecides : t.radio.Restarts ↔ c.Restarts)
      (hpending : ∀ p, t.radio.pending = some p → p.action.operation.turnsScan = false)
  | stepping {p : Pending} (hrestarts : c.Restarts) (hpending : t.radio.pending = some p)
      (hoperation : p.action.operation = .scanStep)
      (hsearches : p.action.index = 2 → during.Searches)
  | restarted (hrestarts : c.Restarts) (hsearches : during.Searches)
  | ending {p : Pending} (hrestarts : ¬ c.Restarts) (hpending : t.radio.pending = some p)
      (hoperation : p.action.operation.turnsScan = true ∧ p.action.operation ≠ .scanStep)

/-- The end of the scan is on its way, so that the radio neither rests nor is polled. -/
structure Halted (t : Turn) (c : Controller) (during : Journal) : Prop where
  state : t.radio.state = .scanning
  poll : ∀ p, t.radio.pending = some p → ∀ mode, p.action.operation ≠ .pollScan mode
  ends : (∃ q ∈ t.radio.queue, q.request.operation.endsScan = true) ∨
    ∃ p, t.radio.pending = some p ∧ p.action.operation.endsScan = true
  course : t.Course c during

structure Stops (t : Turn) : Prop where
  halted : ∀ c during, t.journal.StoppedSince c during → t.Halted c during
  heeds : t.journal.Each Journal.Heeds

variable {accepts : Call → Bool} {e : Option Event} {t u : Turn} {p : Pending} {c : Controller}
  {during k : Journal} {progress : Progress}

theorem Halted.closing (h : t.Halted c during) : t.radio.Closing := ⟨h.poll, h.ends⟩

theorem Halted.of_closing {d : Turn} (hstate : d.radio.state = .scanning)
    (hclosing : d.radio.Closing) (hcourse : d.Course c during) : d.Halted c during :=
  ⟨hstate, hclosing.poll, hclosing.ends, hcourse⟩

theorem Halted.pending_ne_none (h : t.Halted c during) (hrested : t.radio.Rested) :
    t.radio.pending ≠ none :=
  h.closing.pending_ne_none h.state hrested

/-- Nothing in flight sends a search after a stop but a step that waited in front of its end. -/
theorem Halted.restarts_of_search (h : t.Halted c during) (hcarries : t.Carries p)
    (hpending : t.radio.pending = some p) (hplanned : p.Planned)
    (hsearch : some Call.search ∈ Command.calls p.action.commands) : c.Restarts := by
  have hroute := hcarries.route
  rw [h.state] at hroute
  have hnone := (RadioState.of_accept_scanning hroute).2.2.1
  have hstep := (hplanned.search hsearch).resolve_left (· hnone)
  cases h.course with
  | ahead _ hother =>
      have hturns := hother p hpending
      simp [hstep, Operation.turnsScan] at hturns
  | stepping hrestarts => exact hrestarts
  | restarted hrestarts => exact hrestarts
  | ending _ hq hoperation =>
      cases hpending.symm.trans hq
      exact (hoperation.2 hstep).elim

theorem Stops.extend (h : t.Stops) (hjournal : u.journal = t.journal ++ k)
    (hresolved : ∀ p timedOut c, .resolved p timedOut c ∉ k)
    (hhalted : ∀ c during, t.Halted c during → (∀ e ∈ k, e.leavesScan = false) →
      u.Halted c (during ++ k))
    (hheeds : ∀ before e, e ∈ k →
      (∀ c during, (t.journal ++ before).StoppedSince c during →
        ∃ earlier, during = earlier ++ before ∧ t.Halted c earlier) →
          Journal.Heeds (t.journal ++ before) e) : u.Stops := by
  constructor
  · intro c during hstopped
    rw [hjournal] at hstopped
    obtain ⟨earlier, rfl, hearlier, hk⟩ := hstopped.of_append hresolved
    exact hhalted c earlier (h.halted c earlier hearlier) hk
  · rw [hjournal]
    refine Journal.each_append h.heeds fun before e after hk ↦ hheeds before e (by simp [hk]) ?_
    intro c during hstopped
    obtain ⟨earlier, rfl, hearlier, -⟩ := hstopped.of_append fun p timedOut c hmem ↦
      hresolved p timedOut c (by simp [hk, hmem])
    exact ⟨earlier, rfl, h.halted c earlier hearlier⟩

/-- Entries that are minor tell nothing about stops. -/
theorem Stops.of_minor (h : t.Stops) (hjournal : u.journal = t.journal ++ k)
    (hk : ∀ e ∈ k, e.isMinor = true)
    (hhalted : ∀ c during, t.Halted c during → u.Halted c (during ++ k)) : u.Stops := by
  refine h.extend hjournal (fun p timedOut c hmem ↦ ?_) (fun c during ht _ ↦ hhalted c during ht)
    fun before e hmem _ ↦ Journal.heeds_of_isMinor (hk e hmem) _
  simpa [Entry.isMinor] using hk _ hmem

theorem Course.append (h : t.Course c during) (k : Journal)
    (hpending : u.radio.pending = t.radio.pending)
    (hdecides : (∀ p, t.radio.pending = some p → p.action.operation.turnsScan = false) →
      (u.radio.Restarts ↔ t.radio.Restarts)) : u.Course c (during ++ k) := by
  cases h with
  | ahead hcourse hother =>
      exact .ahead ((hdecides hother).trans hcourse) (hpending ▸ hother)
  | stepping hrestarts hp hoperation hsearches =>
      exact .stepping hrestarts (hpending.trans hp) hoperation fun hindex ↦
        (hsearches hindex).append k
  | restarted hrestarts hsearches => exact .restarted hrestarts (hsearches.append k)
  | ending hrestarts hp hoperation => exact .ending hrestarts (hpending.trans hp) hoperation

theorem Stops.enqueue (h : t.Stops) (r : Request) : (t.enqueue r).Stops := by
  refine h.of_minor (enqueue_journal t r) (by simp [Entry.isMinor]) fun c during ht ↦ ?_
  refine .of_closing ht.state (ht.closing.queued rfl rfl) (ht.course.append _ rfl fun hother ↦ ?_)
  exact Controller.restarts_congr (Controller.decider_append (ht.closing.in_queue hother) rfl)
    ⟨rfl, rfl⟩

theorem Stops.ready (h : t.Stops) (hstate : t.radio.state = .invalid) : (t.enter .idle).Stops := by
  refine h.extend (k := Journal.ofChange t.radio.state .idle ++
    Journal.ofPoll .idle t.radio.generation t.radio.timing.pollInterval) (by simp) ?_ ?_ ?_
  · simp [hstate, Journal.ofChange, Journal.ofPoll]
  · intro c during ht
    have hscanning := ht.state
    simp [hstate] at hscanning
  · intro before x hx _
    simp only [hstate, Journal.ofChange, Journal.ofPoll, List.append_nil, reduceCtorEq, if_false,
      List.mem_cons, List.not_mem_nil, or_false] at hx
    rcases hx with rfl | rfl
    · exact ⟨by simp, by simp [Entry.sent?], by simp⟩
    · exact Journal.heeds_of_isMinor rfl _

/-! ## Requests that leave the queue -/

section

variable {passed rest : List Queued} {q : Queued}

/-- Whatever is passed over waits for the end of the scan. -/
theorem Halted.of_passed (h : t.Halted c during)
    (hpassed : ∀ r ∈ passed, t.radio.defers r = true) :
    ∀ r ∈ passed, r.request.operation.turnsScan = false := by
  intro r hr
  have hdefers := hpassed r hr
  rw [Controller.defers, h.state] at hdefers
  exact RadioState.turnsScan_of_defers hdefers

/-- A request that is declined decides nothing, unless it is a step that finds no channel. -/
theorem Halted.decline (h : t.Halted c during) (hnone : t.radio.pending = none)
    (hqueue : t.radio.queue = passed ++ q :: rest)
    (hpassed : ∀ r ∈ passed, t.radio.defers r = true) {outcome : Outcome}
    (hdecline : (t.take q passed rest).radio.Declines q.request.operation outcome) :
    ((t.take q passed rest).report q.request.id outcome).Halted c
      (during ++ (.dispatched q passed t.radio :: Journal.ofReport q.request.id outcome)) := by
  have hturn : q.request.operation.turnsScan = false ∨
      ∀ f, t.radio.attributes.band.nextChannel
        (t.radio.attributes.frequency.getD t.radio.attributes.band.min) ≠ .ok (some f) := by
    cases hdecline with
    | ignored hroute | rejected hroute =>
        rw [take_radio, h.state] at hroute
        cases hoperation : q.request.operation <;>
          simp [hoperation, route, Route.whenScanning, Operation.setsProperty] at hroute <;>
            simp [Operation.turnsScan]
    | unplanned hroute hplan =>
        cases hoperation : q.request.operation <;> simp [hoperation, Plan.build] at hplan
        case scanStep =>
          refine .inr fun f hnext ↦ ?_
          simp [hnext, bind, Except.bind] at hplan
        all_goals simp [Operation.turnsScan]
  refine .of_closing (by simpa using h.state) ?_ (h.course.append _ (by simp) fun _ ↦ ?_)
  · exact h.closing.declined hnone hqueue (hdecline.endsScan h.state) (by simpa using hnone)
      (by simp)
  · rcases hturn with hother | hnext
    · refine Controller.restarts_congr ?_ (by simp)
      rw [Controller.decider_of_next hqueue (h.of_passed hpassed), hother]
      simp [Controller.decider]
    · constructor
      · rintro ⟨-, f, hf⟩
        exact (hnext f (by simpa using hf)).elim
      · rintro ⟨-, f, hf⟩
        exact (hnext f hf).elim

/-- What begins after a stop is no poll, and takes the scan on if it is a step that waited. -/
theorem Halted.launched (h : t.Halted c during) (hnone : t.radio.pending = none)
    (hqueue : t.radio.queue = passed ++ q :: rest)
    (hpassed : ∀ r ∈ passed, t.radio.defers r = true)
    (hpoll : ∀ mode, q.request.operation ≠ .pollScan mode) {destination : RadioState} {plan : Plan}
    (hbuilt : Plan.Built t.radio.timing t.radio.attributes t.radio.scanMode q.request.operation
      plan) (k : Journal) {notices : List Notification} :
    ((t.take q passed rest).launched
      ((t.take q passed rest).radio.transition q.request destination plan.action) notices).Halted c
        (during ++ k) := by
  have hoperation : plan.action.operation = q.request.operation := hbuilt.action.1
  have hdecider := Controller.decider_of_next hqueue (h.of_passed hpassed)
  refine .of_closing h.state (h.closing.begun hnone hqueue hpoll rfl hoperation rfl) ?_
  cases h.course with
  | stepping _ hp | ending _ hp => simp [hnone] at hp
  | restarted hrestarts hsearches => exact .restarted hrestarts (hsearches.append k)
  | ahead hdecides =>
      by_cases hturns : q.request.operation.turnsScan = true
      · rw [if_pos hturns] at hdecider
        by_cases hstep : q.request.operation = .scanStep
        · refine .stepping (hdecides.mp ⟨hdecider.trans (congrArg some hstep), ?_⟩) rfl
            (hoperation.trans hstep) ?_
          · rw [hstep] at hbuilt
            cases hbuilt with
            | @scanStep f hnext => exact ⟨f, hnext⟩
          · simp [hbuilt.action.2.2]
        · refine .ending ?_ rfl (by simp [hoperation, hturns, hstep])
          rw [← hdecides]
          rintro ⟨hfirst, -⟩
          exact hstep (Option.some.inj (hdecider.symm.trans hfirst))
      · rw [if_neg hturns] at hdecider
        refine .ahead (Iff.trans (Controller.restarts_congr (c := t.radio) ?_ ⟨rfl, rfl⟩) hdecides)
          fun p hp ↦ ?_
        · exact hdecider.symm
        · cases hp
          simpa [hoperation] using hturns

end

theorem Stops.decline (h : t.Stops) (hrested : e ≠ none → t.radio.Rested) {r : Request}
    {outcome : Outcome} (htaken : Taken e t r u)
    (hdecline : u.radio.Declines r.operation outcome) : (u.report r.id outcome).Stops := by
  have hminor := Journal.minor_ofReport r.id outcome
  cases htaken with
  | @queued _ q passed rest hpending hqueue hpassed hq =>
      refine h.of_minor (k := .dispatched q passed t.radio :: Journal.ofReport q.request.id outcome)
        (by simp) (List.forall_mem_cons.mpr ⟨rfl, hminor⟩) fun c during ht ↦ ?_
      exact ht.decline hpending hqueue hpassed hdecline
  | poll hpending =>
      refine h.of_minor (report_journal ..) hminor fun c during ht ↦ ?_
      exact (ht.pending_ne_none (hrested (by simp)) hpending).elim

theorem Stops.launched (h : t.Stops) (hscans : t.Scans) (hrested : e ≠ none → t.radio.Rested)
    {r : Request} {destination : RadioState} {plan : Plan} (htaken : Taken e t r u)
    (hplan : Plan.build u.radio.timing r.operation u.radio.attributes u.radio.scanMode =
      .ok (some plan)) :
    (u.launched (u.radio.transition r destination plan.action) plan.notices).Stops := by
  have hbuilt := Plan.built_of_build hplan
  have hminor : ∀ x ∈ plan.notices.map fun n ↦ Entry.effect (.notify n), x.isMinor = true := by
    rcases hbuilt.notices with ⟨mode, aborted, -, hnotices⟩ | ⟨-, hnotices⟩
    · cases mode <;> simp [hnotices, Plan.scanNotice, Entry.isMinor]
    · simp [hnotices]
  have hbegun : ∀ (p : Pending) (c' : Controller) (earlier : Journal),
      (∀ mode, p.action.operation = .pollScan mode → ∀ c during, ¬ earlier.StoppedSince c during) →
        earlier.Heeds (.begun p c') := by
    intro p c' earlier hpoll
    refine ⟨fun q c'' heq ↦ ?_, by simp [Entry.sent?], by simp⟩
    cases heq
    exact hpoll
  cases htaken with
  | @queued _ q passed rest hpending hqueue hpassed hq =>
      have hpoll : ∀ mode, q.request.operation ≠ .pollScan mode := fun mode hmode ↦
        hscans.polls q mode (Journal.queued_of_waiting (hscans.queue ▸ by simp [hqueue])) hmode
      refine h.extend ((launch_journal ..).trans (List.append_assoc ..)) (by simp)
        (fun c during ht _ ↦ ht.launched hpending hqueue hpassed hpoll hbuilt _) ?_
      · intro before x hx _
        simp only [List.singleton_append, List.mem_cons] at hx
        rcases hx with rfl | rfl | hx
        · exact Journal.heeds_of_isMinor rfl _
        · refine hbegun _ _ _ fun mode hmode ↦ (hpoll mode ?_).elim
          exact hbuilt.action.1.symm.trans hmode
        · exact Journal.heeds_of_isMinor (hminor x hx) _
  | poll hpending =>
      have hnever : ∀ c during, ¬ t.Halted c during := fun c during ht ↦
        ht.pending_ne_none (hrested (by simp)) hpending
      refine h.extend (launch_journal ..) (by simp)
        (fun c during ht _ ↦ (hnever c during ht).elim) fun before x hx hearlier ↦ ?_
      rcases List.mem_cons.mp hx with rfl | hx
      · refine hbegun _ _ _ fun mode _ c during hstopped ↦ ?_
        obtain ⟨earlier, -, ht⟩ := hearlier c during hstopped
        exact hnever c earlier ht
      · exact Journal.heeds_of_isMinor (hminor x hx) _

/-! ## Transitions that go on -/

/-- What an action that goes on has sent is its next command. -/
structure Resumes (p : Pending) (a : Attributes) (progress : Progress) : Prop where
  operation : progress.action.operation = p.action.operation
  calls : Command.calls progress.action.commands = Command.calls p.action.commands
  attributes : progress.attributes = a
  followups : progress.followups = []
  sent : ∃ command, progress.action.commands[progress.action.index]? = some command ∧
    progress.sent = (command.call.map (·, true)).toList

theorem resumes_of_begins {a : Attributes} (h : p.action.Begins accepts a progress)
    (hstatus : progress.action.status = .running) : Resumes p a progress := by
  have hoperation := h.same.1
  have hcalls := h.calls
  cases h with
  | empty => simp at hstatus
  | refused => simp at hstatus
  | @issued first rest hcommands =>
      refine ⟨hoperation, hcalls, rfl, rfl, first, by simp [hcommands], ?_⟩
      cases hcall : first.call <;> simp [Progress.sent, Exchange.sent, hcall]

theorem resumes_of_advances {a : Attributes} {callback : Callback}
    (h : p.action.Advances accepts callback a progress)
    (hstatus : progress.action.status = .running) : Resumes p a progress := by
  have hoperation := h.same.1
  have hcalls := h.calls
  cases h with
  | stopped hcommand hcomplete hverdict =>
      have hterminal := Action.verdict_status_isTerminal hverdict
      simp_all [Status.isTerminal]
  | finished => simp at hstatus
  | refused => simp at hstatus
  | @issued command completed next hcommand hcomplete hnext =>
      refine ⟨hoperation, hcalls, rfl, rfl, next, ?_, ?_⟩
      · rw [List.getElem?_set_ne (Nat.ne_of_lt (Nat.lt_succ_self _))]
        exact hnext
      · cases hcall : next.call <;> simp [Progress.sent, List.filterMap_cons, Exchange.sent, hcall]

/-- Whatever an action in flight sends after a stop heeds it. -/
theorem heeds_of_progress (hcarries : t.Carries p) (hpending : t.radio.pending = some p)
    (hplanned : p.Planned)
    (hsent : ∀ x ∈ progress.sent, some x.1 ∈ Command.calls p.action.commands) {first : Nat}
    {before : Journal} {x : Entry} (hx : x ∈ Journal.ofProgress first progress)
    (hearlier : ∀ c during, (t.journal ++ before).StoppedSince c during →
      ∃ earlier, during = earlier ++ before ∧ t.Halted c earlier) :
    Journal.Heeds (t.journal ++ before) x := by
  rcases Journal.mem_ofProgress hx with hminor | ⟨y, hy, rfl⟩
  · exact Journal.heeds_of_isMinor hminor _
  · refine ⟨by simp, fun accepted hsearch c during hstopped ↦ ?_, by simp⟩
    obtain ⟨earlier, -, ht⟩ := hearlier c during hstopped
    refine ht.restarts_of_search hcarries hpending hplanned ?_
    exact hsent (Call.search, accepted) (List.mem_filterMap.mpr ⟨y, hy, hsearch⟩)

theorem Resumes.sent_subset {a : Attributes} (h : Resumes p a progress) :
    ∀ x ∈ progress.sent, some x.1 ∈ Command.calls p.action.commands := by
  obtain ⟨command, hcommand, hsent⟩ := h.sent
  intro x hx
  rw [hsent, Option.mem_toList] at hx
  obtain ⟨call, hcall, rfl⟩ := Option.map_eq_some_iff.mp hx
  rw [← h.calls, Command.calls, ← hcall]
  exact List.mem_map_of_mem (List.mem_of_getElem? hcommand)

theorem closing_hold (h : t.radio.Closing) (hpending : t.radio.pending = some p)
    (hoperation : progress.action.operation = p.action.operation) :
    (t.hold p progress).radio.Closing := by
  constructor
  · intro q hq
    simp only [hold_radio, Option.some.injEq] at hq
    subst hq
    simpa only [hoperation] using h.poll p hpending
  · rcases h.ends with ⟨q, hq, hends⟩ | ⟨q, hq, hends⟩
    · exact .inl ⟨q, by simp [hq], hends⟩
    · cases hpending.symm.trans hq
      exact .inr ⟨_, by rw [hold_radio], by simpa only [hoperation] using hends⟩

theorem Stops.hold (h : t.Stops) (hcarries : t.Carries p) (hpending : t.radio.pending = some p)
    (hplanned : p.Planned) (hresumes : Resumes p t.radio.attributes progress) :
    (t.hold p progress).Stops := by
  refine h.extend (hold_journal p progress) (by simp [Journal.ofProgress])
    (fun c during ht _ ↦ ?_) fun before x hx hearlier ↦
      heeds_of_progress hcarries hpending hplanned hresumes.sent_subset hx hearlier
  have hflight : ∀ q, (t.hold p progress).radio.pending = some q →
      q.action.operation = p.action.operation := by
    intro q hq
    simp only [hold_radio, Option.some.injEq] at hq
    subst hq
    exact hresumes.operation
  refine .of_closing (by simpa using ht.state) (closing_hold ht.closing hpending hresumes.operation)
    ?_
  cases ht.course with
  | restarted hrestarts hsearches => exact .restarted hrestarts (hsearches.append _)
  | ahead hdecides hother =>
      refine .ahead (Iff.trans (Controller.restarts_congr ?_ ?_) hdecides) fun q hq ↦ ?_
      · simp [Controller.decider, hresumes.followups]
      · simp [hresumes.attributes]
      · rw [hflight q hq]
        exact hother p hpending
  | ending hrestarts hq hoperation =>
      cases hpending.symm.trans hq
      refine .ending hrestarts (by rw [hold_radio]) ?_
      rwa [hresumes.operation]
  | stepping hrestarts hq hoperation =>
      cases hpending.symm.trans hq
      refine .stepping hrestarts (by rw [hold_radio]) (hresumes.operation.trans hoperation)
        fun hindex ↦ ?_
      obtain ⟨command, hcommand, hsent⟩ := hresumes.sent
      obtain ⟨first, second, hcalls⟩ := hplanned.of_scanStep hoperation
      have hsearch : command.call = some Call.search := by
        have hthird := congrArg (·[2]?) (hresumes.calls.trans hcalls)
        rw [show progress.action.index = 2 from hindex] at hcommand
        simpa [Command.calls, hcommand] using hthird
      refine ⟨true, ?_⟩
      rw [Journal.sent_append, (Journal.ofProgress_views _ _).1, hsent, hsearch]
      simp

/-! ## Transitions that end -/

/-- What the end of an action means for a stopped scan. -/
structure Ends (p : Pending) (a : Attributes) (progress : Progress) : Prop where
  closes : Closes p progress
  sent : ∀ x ∈ progress.sent, some x.1 ∈ Command.calls p.action.commands
  tuning : p.action.operation.retunes = false →
    progress.attributes.band = a.band ∧ progress.attributes.frequency = a.frequency
  /-- A step of a scan has sent its last command. -/
  step : p.action.operation = .scanStep → progress.action.status = .done → p.action.index = 2
  stop : p.action.operation = .stopScan → progress.action.status = .done →
    ∃ mode, progress.followups = [.scanDone mode true]

theorem ends_of_begins {r : Request} {plan : Plan} {destination : RadioState} {c : Controller}
    (hbuilt : Plan.Built c.timing c.attributes c.scanMode r.operation plan)
    (h : plan.action.Begins accepts c.attributes progress)
    (hstatus : progress.action.status.isTerminal = true) :
    Ends (c.transition r destination plan.action) c.attributes progress := by
  have hplanned := hbuilt.planned c destination
  have hcloses : Closes (c.transition r destination plan.action) progress :=
    closes_of_begins hbuilt h hstatus
  have hsent := h.sent
  cases h with
  | issued => simp [Status.isTerminal] at hstatus
  | refused => exact ⟨hcloses, hsent, fun _ ↦ ⟨rfl, rfl⟩, by simp, by simp⟩
  | empty hcommands hhook =>
      refine ⟨hcloses, hsent, fun hretunes ↦ hplanned.keeps_tuning hretunes hhook,
        fun hstep _ ↦ ?_, fun hstop _ ↦ ((hplanned.of_stopScan hstop).1 hcommands).elim⟩
      obtain ⟨first, second, hcalls⟩ := hplanned.of_scanStep hstep
      rw [Controller.transition_action, hcommands] at hcalls
      cases hcalls

theorem ends_of_advances {a : Attributes} {callback : Callback} (hplanned : p.Planned)
    (hcloses : Closes p progress) (h : p.action.Advances accepts callback a progress)
    (hstatus : progress.action.status ≠ .running) (hrunning : p.action.status = .running) :
    Ends p a progress := by
  have hsent := h.sent
  cases h with
  | issued => exact (hstatus hrunning).elim
  | refused => exact ⟨hcloses, hsent, fun _ ↦ ⟨rfl, rfl⟩, by simp, by simp⟩
  | @stopped _ _ verdict _ _ _ _ hverdict hhook =>
      have hnotDone := Action.verdict_status_ne_done verdict
      exact ⟨hcloses, hsent, fun hretunes ↦ hplanned.keeps_tuning hretunes hhook,
        fun _ hdone ↦ (hnotDone hdone).elim, fun _ hdone ↦ (hnotDone hdone).elim⟩
  | finished _ _ hlast hhook =>
      refine ⟨hcloses, hsent, fun hretunes ↦ hplanned.keeps_tuning hretunes hhook,
        fun hstep _ ↦ ?_, fun hstop _ ↦ ?_⟩
      · obtain ⟨first, second, hcalls⟩ := hplanned.of_scanStep hstep
        have hlength := congrArg List.length hcalls
        simp only [Command.calls, List.length_map, List.length_cons, List.length_nil] at hlength
        omega
      · obtain ⟨-, mode, hmode⟩ := hplanned.of_stopScan hstop
        rw [hmode] at hhook
        cases hhook
        exact ⟨mode, rfl⟩

theorem ends_of_expire (a : Attributes) :
    Ends p a { action := { p.action with status := .error }, attributes := a } :=
  ⟨⟨rfl, by simp, .inl rfl⟩, by simp [Progress.sent], fun _ ↦ ⟨rfl, rfl⟩, by simp, by simp⟩

section

variable {armed timedOut : Bool}

/-- The entries that the end of a transition adds before it is on record. -/
def closing (t : Turn) (p : Pending) (progress : Progress) (armed timedOut : Bool) : Journal :=
  Journal.ofProgress t.radio.arrivals progress ++
    Journal.ofFinish (t.settling progress) { p with action := progress.action } armed timedOut

theorem settle_closing (t : Turn) (p : Pending) (progress : Progress) (armed timedOut : Bool) :
    (t.settle p progress armed timedOut).journal =
      (t.journal ++ t.closing p progress armed timedOut) ++
        .resolved { p with action := progress.action } timedOut
            (t.settle p progress armed timedOut).radio ::
          Journal.ofReport p.request
            (resolution { p with action := progress.action } timedOut).2 := by
  rw [settle_journal, Journal.ofEnd_eq, closing, settle_radio]
  simp [settling]

theorem not_mem_closing (t : Turn) (p : Pending) (progress : Progress) (armed timedOut : Bool)
    (q : Pending) (late : Bool) (c : Controller) :
    .resolved q late c ∉ t.closing p progress armed timedOut := by
  intro hmem
  rcases List.mem_append.mp hmem with hmem | hmem
  · simp [Journal.ofProgress] at hmem
  · simpa [Entry.isMinor] using Journal.mem_ofFinish hmem

/-- A transition that ends in the scan has gone well, and was neither its end nor a poll. -/
theorem done_of_closing (h : t.radio.Closing) (hstate : t.radio.state = .scanning)
    (hcarries : t.Carries p) (hpending : t.radio.pending = some p) (hcloses : Closes p progress)
    (htarget : (resolution { p with action := progress.action } timedOut).1 = .scanning) :
    progress.action.status = .done ∧ p.action.operation.retunes = false ∧
      (p.action.operation.turnsScan = true → p.action.operation = .scanStep) := by
  have hroute := hcarries.route
  rw [hstate] at hroute
  obtain ⟨-, hturns, -, hpoll⟩ := RadioState.of_accept_scanning hroute
  have hretunes : p.action.operation.retunes = false := by
    by_contra hretunes
    obtain ⟨mode, hmode⟩ := hpoll (by simpa using hretunes)
    exact h.poll p hpending mode hmode
  rcases resolution_cases { p with action := progress.action } timedOut with
    ⟨hdone, hdestination⟩ | ⟨hfailed, -⟩ | ⟨-, herror⟩
  · refine ⟨hdone, hretunes, fun hturn ↦ ?_⟩
    by_contra hstep
    exact hturns.mp ⟨hturn, hstep⟩ (hdestination.symm.trans htarget)
  · obtain ⟨mode, hmode⟩ := hcloses.unsuccessful hfailed
    exact (h.poll p hpending mode hmode).elim
  · simp [htarget] at herror

/-- Whatever ends within the scan leaves its end where it was, in the queue. -/
theorem closing_settle (h : t.radio.Closing) (hstate : t.radio.state = .scanning)
    (hcarries : t.Carries p) (hpending : t.radio.pending = some p) (hcloses : Closes p progress)
    (htarget : (resolution { p with action := progress.action } timedOut).1 = .scanning) :
    (t.settle p progress armed timedOut).radio.Closing := by
  obtain ⟨-, -, hturns⟩ := done_of_closing h hstate hcarries hpending hcloses htarget
  refine ⟨by simp [Controller.resolved], .inl ?_⟩
  rcases h.ends with ⟨q, hq, hend⟩ | ⟨q, hq, hend⟩
  · exact ⟨q, by simp [Controller.resolved, hq], hend⟩
  · cases hpending.symm.trans hq
    have hstep := hturns (Operation.turnsScan_of_endsScan hend)
    simp [hstep, Operation.endsScan] at hend

/-- What is announced when a transition ends tells whether the scan is left. -/
theorem target_of_closing (hstate : t.radio.state = .scanning)
    (hleaves : ∀ x ∈ t.closing p progress armed timedOut, x.leavesScan = false) :
    (resolution { p with action := progress.action } timedOut).1 = .scanning := by
  by_contra hchange
  obtain ⟨x, hx, hleaves'⟩ : ∃ x ∈ Journal.ofFinish (t.settling progress)
      { p with action := progress.action } armed timedOut, x.leavesScan = true :=
    Journal.leaves_of_change hstate hchange
  rw [hleaves x (List.mem_append_right _ hx)] at hleaves'
  cases hleaves'

theorem Halted.settle (h : t.Halted c during) (hcarries : t.Carries p)
    (hpending : t.radio.pending = some p) (hends : Ends p t.radio.attributes progress)
    (hleaves : ∀ x ∈ t.closing p progress armed timedOut, x.leavesScan = false) (k : Journal) :
    (t.settle p progress armed timedOut).Halted c
      (during ++ t.closing p progress armed timedOut ++ k) := by
  have htarget := target_of_closing h.state hleaves
  obtain ⟨hdone, hretunes, hturns⟩ :=
    done_of_closing h.closing h.state hcarries hpending hends.closes htarget
  have hqueue : (t.settle p progress armed timedOut).radio.queue =
      t.radio.queue ++ Journal.followups t.radio.arrivals progress.followups := by
    simp [Controller.resolved]
  refine .of_closing (by simp [Controller.resolved, htarget])
    (closing_settle h.closing h.state hcarries hpending hends.closes htarget) ?_
  cases h.course with
  | restarted hrestarts hsearches =>
      exact .restarted hrestarts ((hsearches.append _).append _)
  | ahead hdecides hother =>
      refine .ahead (Iff.trans (Controller.restarts_congr ?_ ?_) hdecides)
        (by simp [Controller.resolved])
      · exact Controller.decider_append (h.closing.in_queue hother) hqueue
      · simpa [Controller.resolved] using hends.tuning hretunes
  | stepping hrestarts hq hoperation hsearches =>
      cases hpending.symm.trans hq
      have hsearched := hsearches (hends.step hoperation hdone)
      exact .restarted hrestarts ((hsearched.append _).append _)
  | ending hrestarts hq hoperation =>
      cases hpending.symm.trans hq
      exact (hoperation.2 (hturns hoperation.1)).elim

/-- A stop that has just ended well has its follow-up in the queue. -/
theorem halted_of_stop (hcarries : t.Carries p) (hends : Ends p t.radio.attributes progress)
    (hstop : p.action.operation = .stopScan) (hdone : progress.action.status = .done)
    (k : Journal) :
    (t.settle p progress armed timedOut).Halted (t.settle p progress armed timedOut).radio k := by
  have htarget : (resolution { p with action := progress.action } timedOut).1 = .scanning := by
    have hroute := hcarries.route
    rw [hstop] at hroute
    have hdestination := (RadioState.scanning_of_accept hroute (.inl rfl)).2
    simpa [resolution, hdone] using hdestination
  obtain ⟨mode, hfollowups⟩ := hends.stop hstop hdone
  refine ⟨by simp [Controller.resolved, htarget], by simp [Controller.resolved], .inl ?_,
    .ahead Iff.rfl (by simp [Controller.resolved])⟩
  exact ⟨⟨t.radio.arrivals, ⟨none, .scanDone mode true⟩⟩,
    by simp [Controller.resolved, hfollowups], rfl⟩

/-- What is announced of a scan that is left heeds the stops before it. -/
theorem heeds_of_finish (hcarries : t.Carries p) (hpending : t.radio.pending = some p)
    {before : Journal} {x : Entry}
    (hx : x ∈ Journal.ofFinish (t.settling progress) { p with action := progress.action } armed
      timedOut)
    (hearlier : ∀ c during, (t.journal ++ before).StoppedSince c during →
      ∃ earlier, during = earlier ++ before ∧ t.Halted c earlier) :
    Journal.Heeds (t.journal ++ before) x := by
  rcases Journal.mem_ofFinish hx with hminor | ⟨hchange, rfl⟩
  · exact Journal.heeds_of_isMinor hminor _
  refine ⟨by simp, by simp [Entry.sent?], fun new heq ↦ ?_⟩
  obtain ⟨hstate, rfl⟩ : t.radio.state = .scanning ∧
      (resolution { p with action := progress.action } timedOut).1 = new := by
    simpa [settling] using heq
  have hroute := hcarries.route
  rw [hstate] at hroute
  obtain ⟨hdestination, hturns, -, -⟩ := RadioState.of_accept_scanning hroute
  have hchange' : (resolution { p with action := progress.action } timedOut).1 ≠ .scanning := by
    simpa [settling, hstate] using hchange
  rcases resolution_cases { p with action := progress.action } timedOut with
    ⟨hdone, htarget⟩ | ⟨hfailed, htarget⟩ | ⟨-, htarget⟩
  · rw [htarget] at hchange' ⊢
    refine ⟨?_, fun _ c during hstopped hrestarts ↦ ?_⟩
    · rcases hdestination with h | h | h
      · exact .inl h
      · exact .inr (.inl h)
      · exact (hchange' h).elim
    · obtain ⟨earlier, rfl, ht⟩ := hearlier c during hstopped
      obtain ⟨hturn, hnotStep⟩ := hturns.mpr hchange'
      cases ht.course with
      | ahead _ hother => simp [hother p hpending] at hturn
      | stepping _ hq hoperation =>
          cases hpending.symm.trans hq
          exact (hnotStep hoperation).elim
      | restarted _ hsearches => exact hsearches.append before
      | ending hnever => exact (hnever hrestarts).elim
  · have hsource := hcarries.source
    exact (hchange' (htarget.trans (hsource.trans hstate))).elim
  · exact ⟨.inr (.inr htarget), fun hne ↦ (hne htarget).elim⟩

theorem Stops.settle (h : t.Stops) (hcarries : t.Carries p) (hpending : t.radio.pending = some p)
    (hplanned : p.Planned) (hends : Ends p t.radio.attributes progress) :
    (t.settle p progress armed timedOut).Stops := by
  have hclosing := t.not_mem_closing p progress armed timedOut
  have hreport : ∀ q late c, .resolved q late c ∉ Journal.ofReport p.request
      (resolution { p with action := progress.action } timedOut).2 := fun q late c hmem ↦ by
    simpa [Entry.isMinor] using Journal.minor_ofReport _ _ _ hmem
  constructor
  · intro c during hstopped
    rw [settle_closing] at hstopped
    rcases hstopped.of_resolved hreport with ⟨rfl, -, hstop, hdone⟩ | ⟨middle, rfl, hmiddle⟩
    · exact halted_of_stop hcarries hends (hends.closes.operation.symm.trans hstop) hdone _
    · obtain ⟨earlier, rfl, hearlier, hleaves⟩ := hmiddle.of_append hclosing
      exact (h.halted c earlier hearlier).settle hcarries hpending hends hleaves _
  · rw [settle_closing]
    refine Journal.each_append (Journal.each_append h.heeds ?_) fun before x after hk ↦ ?_
    · intro before x after hk
      have hx : x ∈ t.closing p progress armed timedOut := by simp [hk]
      have hearlier : ∀ c during, (t.journal ++ before).StoppedSince c during →
          ∃ earlier, during = earlier ++ before ∧ t.Halted c earlier := by
        intro c during hstopped
        obtain ⟨earlier, rfl, hstopped, -⟩ := hstopped.of_append fun q late c hmem ↦
          hclosing q late c (by simp [hk, hmem])
        exact ⟨earlier, rfl, h.halted c earlier hstopped⟩
      rcases List.mem_append.mp hx with hx | hx
      · exact heeds_of_progress hcarries hpending hplanned hends.sent hx hearlier
      · exact heeds_of_finish hcarries hpending hx hearlier
    · have hx : x ∈ _ :: Journal.ofReport _ _ := hk ▸ List.mem_append_right before (by simp)
      rcases List.mem_cons.mp hx with rfl | hx
      · exact ⟨by simp, by simp [Entry.sent?], by simp⟩
      · exact Journal.heeds_of_isMinor (Journal.minor_ofReport _ _ x hx) _

end

/-! ## Moves -/

theorem Move.stops (hmove : Move accepts e t u) (h : t.Stops) (hscans : t.Scans)
    (hsteady : t.radio.Steady) (hplanned : t.radio.Planned)
    (hrested : e ≠ none → t.radio.Rested) : u.Stops := by
  cases hmove with
  | ready hstate => exact h.ready hstate
  | arrive r => exact h.enqueue r
  | decline htaken hdecline => exact h.decline hrested htaken hdecline
  | @begin _ _ v _ destination _ _ htaken hroute hplan hbegins hstatus =>
      have hbuilt := Plan.built_of_build hplan
      have hlaunched := hscans.launched hrested htaken hroute hplan
      have hhold := (h.launched hscans hrested htaken hplan).hold
        (hlaunched.carries _ rfl) rfl (hbuilt.planned v.radio destination)
        (resumes_of_begins hbegins hstatus)
      rw [launched_hold] at hhold
      refine hhold.of_minor rfl (by simp [Entry.isMinor]) fun c during ht ↦ ?_
      exact ⟨ht.state, ht.poll, ht.ends, ht.course.append _ rfl fun _ ↦ Iff.rfl⟩
  | @flash _ _ v _ destination _ _ htaken hroute hplan hbegins hstatus =>
      have hbuilt := Plan.built_of_build hplan
      have hlaunched := hscans.launched hrested htaken hroute hplan
      rw [← launched_settle]
      exact (h.launched hscans hrested htaken hplan).settle (hlaunched.carries _ rfl) rfl
        (hbuilt.planned v.radio destination) (ends_of_begins hbuilt hbegins hstatus)
  | @advance _ p _ _ hpending hadvances hstatus =>
      exact h.hold (hscans.carries p hpending) hpending (hplanned p hpending)
        (resumes_of_advances hadvances hstatus)
  | @finish _ p _ _ hpending hadvances hstatus =>
      have hrunning := hsteady p hpending
      have hcloses := closes_of_advances (hscans.carries p hpending).reads hrunning hadvances hstatus
      refine h.settle (hscans.carries p hpending) hpending (hplanned p hpending)
        (ends_of_advances (hplanned p hpending) hcloses hadvances ?_ hrunning)
      intro hstill
      simp [hstill, Status.isTerminal] at hstatus
  | @expire _ p hpending =>
      exact h.settle (hscans.carries p hpending) hpending (hplanned p hpending) (ends_of_expire _)

end Turn

variable {timing : Timing} {script : List (Event × (Call → Bool))} {t : Turn}

theorem Controller.run_stops
    (hclients : ∀ r accepts, (.request r, accepts) ∈ script → r.operation.isClient = true)
    (h : (initial timing).run script = .ok t) : t.Stops ∧ t.radio.Rested := by
  have hstart : Turn.Stops { radio := initial timing } := by
    constructor
    · rintro c during ⟨before, p, timedOut, hsplit, -⟩
      simp at hsplit
    · intro earlier e later hsplit
      simp at hsplit
  have hrun := run_induction
    (P := fun t ↦ t.Stops ∧ t.Scans ∧ t.radio.Planned)
    ⟨hstart, initial_scans timing, fun p hp ↦ by simp [initial] at hp⟩ ?_ ?_ h
  · exact ⟨hrun.1.1, hrun.2.2⟩
  · rintro event accepts t u hmem ⟨hstops, hscans, hplanned⟩ hsteady hrested hmove
    refine ⟨hmove.stops hstops hscans hsteady hplanned fun _ ↦ hrested,
      hmove.scans hscans hsteady (fun _ ↦ hrested) fun r hr ↦ ?_, hmove.planned hplanned⟩
    cases hr
    exact hclients r accepts hmem
  · rintro accepts t u ⟨hstops, hscans, hplanned⟩ hsteady hmove
    exact ⟨hmove.stops hstops hscans hsteady hplanned (by simp),
      hmove.scans hscans hsteady (by simp) (by simp), hmove.planned hplanned⟩

/-- After a stop that ended well, and until the scan has been left, the radio never rests and begins
no poll; and the scan is left for the started, the idle or the error state. -/
theorem stopped_scan_finds_no_rest
    (hclients : ∀ r accepts, (.request r, accepts) ∈ script → r.operation.isClient = true)
    (h : (Controller.initial timing).run script = .ok t) :
    (∀ c during, t.journal.StoppedSince c during →
      t.radio.state = .scanning ∧ t.radio.pending ≠ none) ∧
    (∀ (earlier : Journal) p c' later mode, t.journal = earlier ++ .begun p c' :: later →
      p.action.operation = .pollScan mode → ∀ c during, ¬ earlier.StoppedSince c during) ∧
    (∀ (earlier : Journal) new later,
      t.journal = earlier ++ .effect (.notify (.stateChanged .scanning new)) :: later →
        new = .started ∨ new = .idle ∨ new = .error) := by
  obtain ⟨hstops, hrested⟩ := Controller.run_stops hclients h
  refine ⟨fun c during hstopped ↦ ?_, fun earlier p c' later mode hsplit hpoll ↦ ?_,
    fun earlier new later hsplit ↦ ?_⟩
  · have hhalted := hstops.halted c during hstopped
    exact ⟨hhalted.state, hhalted.pending_ne_none hrested⟩
  · exact (hstops.heeds earlier _ later hsplit).polls p c' rfl mode hpoll
  · exact ((hstops.heeds earlier _ later hsplit).leaves new rfl).1

/-- A full scan that is stopped while the poll that finds a station is in flight. -/
def stopBehindPoll : List (Event × (Call → Bool)) :=
  [.ready, .request ⟨none, .start .europeUs⟩, .callback (.power true),
    .callback (.vendor 0xfc15 [0, 0, 0]), .callback .delayElapsed,
    .callback (.vendor 0xfc15 [0, 1, 0]), .callback (.vendor 0xfc15 [0, 5, 0]),
    .request ⟨none, .fullScan⟩, .callback (.vendor 0xfc15 [0, 10, 0]),
    .callback (.vendor 0xfc15 [0, 7, 0]), .callback (.vendor 0xfc15 [0, 9, 0]), .pollDue 2,
    .request ⟨none, .stopScan⟩, .callback (.vendor 0xfc15 [0, 18, 1, 1, 0]),
    .callback (.vendor 0xfc15 [0, 10, 1, 192, 93]), .callback (.vendor 0xfc15 [0, 15, 1, 70]),
    .callback (.vendor 0xfc15 [0, 9, 0]), .callback (.vendor 0xfc15 [0, 10, 0]),
    .callback (.vendor 0xfc15 [0, 7, 0]), .callback (.vendor 0xfc15 [0, 9, 0]),
    .callback (.vendor 0xfc15 [0, 10, 0]), .callback (.vendor 0xfc15 [0, 9, 0])].map
      fun event ↦ (event, fun _ ↦ true)

theorem stopBehindPoll_clients : ∀ r accepts, (.request r, accepts) ∈ stopBehindPoll →
    r.operation.isClient = true := by
  have hclients : ∀ x ∈ stopBehindPoll, ∀ r, x.1 = .request r → r.operation.isClient = true := by
    simp [stopBehindPoll, Operation.isClient]
  exact fun r accepts hmem ↦ hclients _ hmem r rfl

/-- After the stop of a full scan a transition is in flight, and the scan is not left yet. -/
theorem step_in_flight_after_stop :
    ∃ t c during, (Controller.initial {}).run (stopBehindPoll.take 17) = .ok t ∧
      t.journal.StoppedSince c during ∧ t.radio.state = .scanning ∧ t.radio.pending ≠ none := by
  obtain ⟨t, hrun, hstop, hleaves⟩ : ∃ t,
      (Controller.initial {}).run (stopBehindPoll.take 17) = .ok t ∧
        t.journal[57]?.any (Entry.endsWell .stopScan) = true ∧
          ∀ e ∈ t.journal.drop 58, e.leavesScan = false := by
    refine ⟨_, rfl, ?_, ?_⟩ <;> decide
  obtain ⟨c, hstopped⟩ := Journal.exists_doneSince hstop hleaves
  have hclients : ∀ r accepts, (.request r, accepts) ∈ stopBehindPoll.take 17 →
      r.operation.isClient = true := fun r accepts hmem ↦
    stopBehindPoll_clients r accepts (List.mem_of_mem_take hmem)
  obtain ⟨hstate, hpending⟩ := (stopped_scan_finds_no_rest hclients hrun).1 c _ hstopped
  exact ⟨t, c, _, hrun, hstopped, hstate, hpending⟩

/-- After a stop the search is started again exactly if a step to the next channel waited in front
of the end of the scan, unless the scan is left for the error state. -/
theorem searches_after_stop_iff_step_waits
    (hclients : ∀ r accepts, (.request r, accepts) ∈ script → r.operation.isClient = true)
    (h : (Controller.initial timing).run script = .ok t) :
    (∀ (earlier later : Journal) c during, t.journal = earlier ++ later →
      earlier.StoppedSince c during → during.Searches → c.Restarts) ∧
    (∀ (earlier : Journal) new later c during,
      t.journal = earlier ++ .effect (.notify (.stateChanged .scanning new)) :: later →
        earlier.StoppedSince c during → new ≠ .error → (during.Searches ↔ c.Restarts)) := by
  have hheeds := (Controller.run_stops hclients h).1.heeds
  have hfirst : ∀ (earlier later : Journal) c during, t.journal = earlier ++ later →
      earlier.StoppedSince c during → during.Searches → c.Restarts := by
    rintro _ later c during hsplit ⟨before, p, timedOut, rfl, hstop, hdone, hleaves⟩
      ⟨accepted, hmem⟩
    obtain ⟨e, he, hsent⟩ := List.mem_filterMap.mp hmem
    obtain ⟨since, rest, rfl⟩ := List.append_of_mem he
    refine (hheeds (before ++ .resolved p timedOut c :: since) e (rest ++ later) ?_).searches
      accepted hsent c since ⟨before, p, timedOut, rfl, hstop, hdone, fun x hx ↦ ?_⟩
    · rw [hsplit]
      simp
    · exact hleaves x (List.mem_append_left _ hx)
  refine ⟨hfirst, fun earlier new later c during hsplit hstopped hne ↦ ⟨?_, fun hrestarts ↦ ?_⟩⟩
  · exact hfirst earlier _ c during hsplit hstopped
  · exact ((hheeds earlier _ later hsplit).leaves new rfl).2 hne c during hstopped hrestarts

/-- The search that a stop has not prevented, up to where the scan is left. -/
theorem stop_before_poll_ends :
    ∃ t earlier later c during, (Controller.initial {}).run stopBehindPoll = .ok t ∧
      t.journal = earlier ++ .effect (.notify (.stateChanged .scanning .started)) :: later ∧
        Journal.StoppedSince earlier c during ∧ c.Restarts ∧ during.Searches := by
  obtain ⟨t, hrun, hsplit, hstop, hleaves, hsent⟩ : ∃ t,
      (Controller.initial {}).run stopBehindPoll = .ok t ∧
        t.journal = t.journal.take 79 ++
          .effect (.notify (.stateChanged .scanning .started)) :: t.journal.drop 80 ∧
        (t.journal.take 79)[57]?.any (Entry.endsWell .stopScan) = true ∧
          (∀ e ∈ (t.journal.take 79).drop 58, e.leavesScan = false) ∧
            (Call.search, true) ∈ Journal.sent ((t.journal.take 79).drop 58) := by
    refine ⟨_, rfl, ?_, ?_, ?_, ?_⟩ <;> decide
  obtain ⟨c, hstopped⟩ := Journal.exists_doneSince hstop hleaves
  have hiff := (searches_after_stop_iff_step_waits stopBehindPoll_clients hrun).2 _ _ _ c _ hsplit
    hstopped (by simp)
  exact ⟨t, _, _, c, _, hrun, hsplit, hstopped, hiff.mp ⟨true, hsent⟩, ⟨true, hsent⟩⟩

/-- The step that the poll has asked for is carried out after the stop, and searches again. -/
theorem search_started_after_stop :
    ∃ t earlier later c during, (Controller.initial {}).run stopBehindPoll = .ok t ∧
      (∀ r accepts, (.request r, accepts) ∈ stopBehindPoll → r.operation.isClient = true) ∧
        t.journal = earlier ++ later ∧ Journal.StoppedSince earlier c during ∧
          during.Searches := by
  obtain ⟨t, hrun, hstop, hleaves, hsent⟩ : ∃ t,
      (Controller.initial {}).run stopBehindPoll = .ok t ∧
        (t.journal.take 66)[57]?.any (Entry.endsWell .stopScan) = true ∧
          (∀ e ∈ (t.journal.take 66).drop 58, e.leavesScan = false) ∧
            (Call.search, true) ∈ Journal.sent ((t.journal.take 66).drop 58) := by
    refine ⟨_, rfl, ?_, ?_, ?_⟩ <;> decide
  obtain ⟨c, hstopped⟩ := Journal.exists_doneSince hstop hleaves
  exact ⟨t, _, _, c, _, hrun, stopBehindPoll_clients, (List.take_append_drop 66 t.journal).symm,
    hstopped, true, hsent⟩

end FmTuner
