import FmTuner.Proofs.ScanFollowups

/-!
# Scans one after another

A follow-up that begins does so in the scan that it was made in, unless the requests before it take
the radio out of that scan and into another (`Diverting`). Requests that leave the queue keep what
was predicted of follow-ups, and so does every move.
-/

namespace FmTuner

namespace Turn

variable {accepts : Call → Bool} {e : Option Event} {t u : Turn} {p : Pending}
  {before during k : Journal} {ahead : List Queued} {q : Queued}

/-! ## Requests that leave the queue -/

section

variable {passed rest : List Queued} {after : Journal} {x : Entry}

/-- In which scan a follow-up is next. -/
theorem Due.diverting (h : t.Due before during passed q) (hpending : t.radio.pending = none)
    (hstate : t.radio.state = .scanning) (hpassed : ∀ r ∈ passed, t.radio.defers r = true) :
    during.scans ≠ 0 ↔ Diverting before.backlog := by
  have hupcoming : t.radio.upcoming = .scanning := by simp [Controller.upcoming, hpending, hstate]
  have hplay := h.play.resolve_left (by simp [hstate])
  have hnow : FmTuner.play .scanning during.scans (passed.map fun r ↦ r.request.operation) =
      (.scanning, during.scans) := by
    refine play_of_deferred fun operation hmem ↦ ?_
    obtain ⟨r, hr, rfl⟩ := List.mem_map.mp hmem
    simpa [RadioState.defers, Controller.defers, hstate] using hpassed r hr
  rw [hupcoming, hstate, RadioState.enters_self, Nat.add_zero, hnow] at hplay
  simp [Diverting, hplay]

theorem Due.of_taken {r : Queued} (h : t.Due before during (passed ++ q :: ahead) r)
    (hpending : t.radio.pending = none) (hpassed : ∀ r ∈ passed, t.radio.defers r = true)
    (hq : t.radio.defers q = false) (hstate : u.radio.state = t.radio.state)
    (hupcoming : u.radio.upcoming = t.radio.state.after q.request.operation) (hk : k.scans = 0)
    (hmode : u.journal.view.mode = t.journal.view.mode)
    (hstopped : u.journal.view.stopped = t.journal.view.stopped) :
    u.Due before (during ++ k) (passed ++ ahead) r := by
  have hnow : t.radio.upcoming = t.radio.state := by simp [Controller.upcoming, hpending]
  have hnext : t.radio.state.defers q.request.operation = false := hq
  refine h.extend (by rw [hupcoming]; exact RadioState.after_ne_invalid hnext) ?_
    fun _ ↦ ⟨hmode, fun h ↦ hstopped.trans h⟩
  by_cases herror : t.radio.state = .error
  · exact .inl (hstate.trans herror)
  · refine .inr ⟨herror, fun scans ↦ ?_⟩
    rw [hnow, hupcoming, hstate, hk, RadioState.enters_self, Nat.add_zero, Nat.zero_add,
      List.map_append, List.map_append, List.map_cons]
    refine play_next (fun operation hmem ↦ ?_) hnext
    obtain ⟨s, hs, rfl⟩ := List.mem_map.mp hmem
    exact hpassed s hs

/-- Whatever is deferred comes from a client. -/
theorem Scans.not_mem_of_defers (h : t.Scans) (hpending : t.radio.pending = none)
    (hqueue : t.radio.queue = passed ++ rest) (hpassed : ∀ r ∈ passed, t.radio.defers r = true)
    (hclient : q.request.operation.isClient = false)
    (hsplit : t.journal = before ++ .queued q :: during) : q ∉ passed := by
  intro hmem
  obtain ⟨front, back, hfront⟩ := List.append_of_mem hmem
  have hdue := h.due q hclient before during hsplit front (back ++ rest) (by
    rw [hqueue, hfront, List.append_assoc, List.cons_append])
  have hvalid := hdue.valid
  simp only [Controller.upcoming, hpending] at hvalid
  have hdefers : t.radio.state.defers q.request.operation = true := hpassed q hmem
  simp [RadioState.client_of_defers hdefers hvalid] at hclient

/-- What is due stays due when the next request leaves the queue and does what it asks for. -/
theorem Scans.of_taken (h : t.Scans) (hpending : t.radio.pending = none)
    (hqueue : t.radio.queue = passed ++ q :: rest)
    (hpassed : ∀ r ∈ passed, t.radio.defers r = true) (hq : t.radio.defers q = false)
    (hk : ∀ e ∈ k, e.isSilent = true)
    (hjournal : u.journal = t.journal ++ .dispatched q passed t.radio :: k)
    (hstate : u.radio.state = t.radio.state) (hrest : u.radio.queue = passed ++ rest)
    (hscanMode : u.radio.scanMode = t.radio.scanMode)
    (harrivals : u.radio.arrivals = t.radio.arrivals)
    (hupcoming : u.radio.upcoming = t.radio.state.after q.request.operation)
    (hcarries : ∀ p, u.radio.pending = some p → u.Carries p)
    (hconfines : ∀ before e after, k = before ++ e :: after →
      Journal.Confines (t.journal ++ .dispatched q passed t.radio :: before) e) : u.Scans := by
  have hview : u.journal.view =
      { t.journal.view with waiting := t.journal.view.waiting.erase q } := by
    rw [hjournal, Journal.view_append, List.foldl_cons, Journal.foldl_of_silent hk]
    rfl
  have hscans : Journal.scans (.dispatched q passed t.radio :: k) = 0 := by
    rw [Journal.scans, Journal.view, List.foldl_cons, Journal.foldl_of_silent hk]
    rfl
  have hpassed' : q ∉ passed := fun hmem ↦ by simp [hpassed q hmem] at hq
  have hold : ∀ r, .queued r ∈ u.journal → .queued r ∈ t.journal := by
    intro r hr
    rw [hjournal, List.mem_append, List.mem_cons] at hr
    rcases hr with hr | hr | hr
    · exact hr
    · cases hr
    · simpa [Entry.isSilent] using hk _ hr
  refine ⟨?_, fun r hr ↦ harrivals ▸ h.tickets r (hold r hr),
    fun r mode hr ↦ h.polls r mode (hold r hr), fun hs ↦ ?_, hcarries, ?_, ?_⟩
  · rw [hrest, hview, ← h.queue, hqueue, List.erase_append_right _ hpassed', List.erase_cons_head]
  · rw [hscanMode, hview]
    exact h.mode (hstate ▸ hs)
  · intro r hclient before during hsplit ahead behind hahead
    have hnew : .queued r ∉ .dispatched q passed t.radio :: k := by
      intro hmem
      rcases List.mem_cons.mp hmem with hmem | hmem
      · cases hmem
      · simpa [Entry.isSilent] using hk _ hmem
    rw [hjournal] at hsplit
    obtain ⟨between, hbefore, rfl⟩ := split_of_not_mem hsplit hnew
    rw [hrest] at hahead
    obtain ⟨ahead', rfl, hahead'⟩ := split_of_not_mem_left hahead
      (h.not_mem_of_defers hpending hqueue hpassed hclient hbefore)
    refine Due.of_taken (h.due r hclient before between hbefore (passed ++ q :: ahead') behind ?_)
      hpending hpassed hq hstate hupcoming hscans (by rw [hview]) (by rw [hview])
    rw [hqueue, hahead', List.append_assoc, List.cons_append]
  · rw [hjournal]
    refine Journal.each_append h.confines fun before e after hsplit ↦ ?_
    cases before with
    | nil =>
        cases hsplit
        trivial
    | cons first before =>
        cases hsplit
        exact hconfines before e after rfl

theorem Scans.decline (h : t.Scans) {r : Request} {outcome : Outcome} (htaken : Taken e t r u)
    (hdecline : u.radio.Declines r.operation outcome) : (u.report r.id outcome).Scans := by
  have hsilent := Journal.silent_ofReport r.id outcome
  have hnone := htaken.pending
  have hstays : u.radio.state.after r.operation = u.radio.state := by
    cases hdecline with
    | ignored hroute => exact RadioState.after_of_not_accept fun _ h ↦ by simp [hroute] at h
    | rejected hroute => exact RadioState.after_of_not_accept fun _ h ↦ by simp [hroute] at h
    | unplanned hroute hplan =>
        rw [RadioState.after_of_accept hroute]
        exact Plan.stays_of_unplanned hplan hroute
  cases htaken with
  | queued hpending hqueue hpassed hq =>
      refine h.of_taken hpending hqueue hpassed hq (fun e he ↦ (hsilent e he).1) (by simp)
        (by simp) (by simp) (by simp) (by simp) ?_ ?_ ?_
      · simpa [Controller.upcoming, hpending] using hstays.symm
      · simp [hpending]
      · intro before e after hk
        exact Journal.confines_of_isPlain (hsilent e (by simp [hk])).2 _
  | poll hpending hstate hmode =>
      exact h.of_silent (fun e he ↦ (hsilent e he).1) (by simp) (by simp) (by simp) (by simp)
        (by simp) (by simp) (by simp [hpending]) (confines_of_plain (fun e he ↦ (hsilent e he).2) _)

/-! ## Requests that begin a transition -/

theorem carries_of_launched {r : Request} {destination : RadioState} {plan : Plan}
    (hroute : route t.radio.state r.operation = .accept destination)
    (hbuilt : Plan.Built t.radio.timing t.radio.attributes t.radio.scanMode r.operation plan)
    (hpoll : ∀ mode, r.operation = .pollScan mode → t.radio.scanMode = some mode ∧
      ∀ q ∈ t.radio.queue, q.request.operation.isClient = true)
    {notices : List Notification} :
    (t.launched (t.radio.transition r destination plan.action) notices).Carries
      (t.radio.transition r destination plan.action) := by
  have hoperation : plan.action.operation = r.operation := hbuilt.action.1
  obtain ⟨hpolled, hstopped⟩ := hbuilt.hook
  refine ⟨rfl, ?_, ?_, ?_, ?_, ?_⟩
  · simpa [launched, hoperation] using hroute
  · intro h
    exact hbuilt.reads (hoperation ▸ h)
  · intro mode capacity hhook
    have hmode := hpolled mode capacity hhook
    exact ⟨hoperation.trans hmode, (hpoll mode hmode).1⟩
  · intro mode hhook
    obtain ⟨hstop, hmode⟩ := hstopped mode hhook
    exact ⟨hoperation.trans hstop, hmode⟩
  · intro mode hmode
    exact (hpoll mode (hoperation.symm.trans hmode)).2

/-- A follow-up is carried out while scanning, and what is due of it tells in which scan. -/
theorem Scans.due_of_next (h : t.Scans) (hpending : t.radio.pending = none)
    (hqueue : t.radio.queue = passed ++ q :: rest)
    (hpassed : ∀ r ∈ passed, t.radio.defers r = true) {destination : RadioState}
    (hroute : route t.radio.state q.request.operation = .accept destination)
    (hclient : q.request.operation.isClient = false)
    (hsplit : t.journal = before ++ .queued q :: during) :
    t.Due before during passed q ∧ (during.scans ≠ 0 ↔ Diverting before.backlog) := by
  have hdue := h.due q hclient before during hsplit passed rest hqueue
  obtain ⟨hstate, -⟩ := RadioState.scanning_of_accept hroute (.inr hclient)
  exact ⟨hdue, hdue.diverting hpending hstate hpassed⟩

/-- The result that is reported when a scan is done is that of the scan going on. -/
theorem Scans.confines_notice (h : t.Scans) (hpending : t.radio.pending = none)
    (hqueue : t.radio.queue = passed ++ q :: rest)
    (hpassed : ∀ r ∈ passed, t.radio.defers r = true) {destination : RadioState}
    (hroute : route t.radio.state q.request.operation = .accept destination)
    {mode : ScanMode} {aborted : Bool} (hoperation : q.request.operation = .scanDone mode aborted)
    (hp : p.action.operation = q.request.operation) (c : Controller) (a : Attributes) :
    Journal.Confines (t.journal ++ .dispatched q passed t.radio :: [.begun p c])
      (.effect (.notify (Plan.scanNotice mode aborted a))) := by
  intro _
  have hmem : .queued q ∈ t.journal := Journal.queued_of_waiting (h.queue ▸ by simp [hqueue])
  obtain ⟨before, during, hsplit⟩ := List.append_of_mem hmem
  obtain ⟨hdue, hdiverting⟩ :=
    h.due_of_next hpending hqueue hpassed hroute (by rw [hoperation]; rfl) hsplit
  obtain ⟨hmode, hreport⟩ := hdue.report mode aborted hoperation
  have hview : Journal.view (t.journal ++ [Entry.dispatched q passed t.radio, .begun p c]) =
      { t.journal.view with waiting := t.journal.view.waiting.erase q } := by
    rw [Journal.view_append]
    rfl
  refine ⟨before, q, during, p, mode, aborted, a,
    ⟨passed, t.radio, c, [], by rw [hsplit], hp⟩, hoperation, rfl, hmode, hdiverting, ?_⟩
  rw [hview]
  exact hreport

theorem Scans.confines_of_launch (h : t.Scans) (hpending : t.radio.pending = none)
    (hqueue : t.radio.queue = passed ++ q :: rest)
    (hpassed : ∀ r ∈ passed, t.radio.defers r = true) {destination : RadioState} {plan : Plan}
    (hroute : route t.radio.state q.request.operation = .accept destination)
    (hbuilt : Plan.Built t.radio.timing t.radio.attributes t.radio.scanMode
      q.request.operation plan) (hp : p.action.operation = q.request.operation) {c : Controller}
    (hk : .begun p c :: plan.notices.map (fun n ↦ .effect (.notify n)) =
      before ++ x :: after) :
    Journal.Confines (t.journal ++ .dispatched q passed t.radio :: before) x := by
  cases before with
  | nil =>
      cases hk
      intro before r during passed' c' hsplit hclient _
      obtain ⟨hbefore, hlast⟩ := List.append_inj' hsplit rfl
      cases hlast
      exact (h.due_of_next hpending hqueue hpassed hroute hclient hbefore).2
  | cons first before =>
      obtain ⟨rfl, hlater⟩ := List.cons.inj hk
      rcases hbuilt.notices with ⟨mode, aborted, hoperation, hnotices⟩ | ⟨-, hnotices⟩
      · rw [hnotices, List.map_singleton] at hlater
        obtain ⟨rfl, rfl⟩ := eq_of_singleton_split hlater
        exact h.confines_notice hpending hqueue hpassed hroute hoperation hp c _
      · simp [hnotices] at hlater

theorem Scans.launched (h : t.Scans) (hrested : e ≠ none → t.radio.Rested) {r : Request}
    {destination : RadioState} {plan : Plan} (htaken : Taken e t r u)
    (hroute : route u.radio.state r.operation = .accept destination)
    (hplan : Plan.build u.radio.timing r.operation u.radio.attributes u.radio.scanMode =
      .ok (some plan)) :
    (u.launched (u.radio.transition r destination plan.action) plan.notices).Scans := by
  have hbuilt := Plan.built_of_build hplan
  have hsilent : ∀ p c, ∀ e ∈ Entry.begun p c :: plan.notices.map fun n ↦ .effect (.notify n),
      e.isSilent = true := by
    intro p c
    rcases hbuilt.notices with ⟨mode, aborted, -, hnotices⟩ | ⟨-, hnotices⟩
    · cases mode <;> simp [hnotices, Plan.scanNotice, Entry.isSilent]
    · simp [hnotices, Entry.isSilent]
  cases htaken with
  | @queued _ q passed rest hpending hqueue hpassed hq =>
      refine h.of_taken hpending hqueue hpassed hq
        (hsilent ((t.take q passed rest).radio.transition q.request destination plan.action)
          (t.take q passed rest).radio) ?_ rfl rfl rfl rfl ?_ ?_ ?_
      · simp [launched]
      · simpa [launched, Controller.upcoming] using (RadioState.after_of_accept hroute).symm
      · intro p hp
        cases hp
        refine carries_of_launched hroute hbuilt fun mode hmode ↦ ?_
        have hmem : .queued q ∈ t.journal :=
          Journal.queued_of_waiting (h.queue ▸ by simp [hqueue])
        exact (h.polls q mode hmem hmode).elim
      · intro before e after hk
        exact h.confines_of_launch hpending hqueue hpassed hroute hbuilt hbuilt.action.1 hk
  | @poll _ mode hpending hstate hmode =>
      have hdestination : destination = .scanning := by
        simpa using (RadioState.scanning_of_accept hroute (.inr rfl)).2
      refine h.of_silent
        (hsilent (t.radio.transition { id := none, operation := .pollScan mode } destination
          plan.action) t.radio) ?_ rfl rfl rfl rfl ?_ ?_ ?_
      · simp [launched]
      · simp [launched, Controller.upcoming, hpending, hdestination, hstate]
      · intro p hp
        cases hp
        refine carries_of_launched hroute hbuilt fun mode' hmode' ↦ ?_
        cases hmode'
        refine ⟨hmode, fun q hq ↦ ?_⟩
        exact RadioState.client_of_defers (hrested (by simp) hpending q hq) (by simp [hstate])
      · rintro before x after hk
        rcases hbuilt.notices with ⟨_, _, hdone, -⟩ | ⟨-, hnotices⟩
        · simp at hdone
        · rw [hnotices, List.map_nil] at hk
          obtain ⟨rfl, rfl⟩ := eq_of_singleton_split hk
          -- What begins is the poll, and no poll ever joins the queue.
          intro before q during passed c hsplit hclient hoperation
          have hmem : .queued q ∈ t.journal := by
            have : Entry.queued q ∈ t.journal ++ [] := by rw [hsplit]; simp
            simpa using this
          have hpoll : q.request.operation = .pollScan mode :=
            hoperation.symm.trans hbuilt.action.1
          exact (h.polls q mode hmem hpoll).elim

end

/-! ## Moves -/

theorem Scans.emit_armTimeout (h : t.Scans) (id after : Nat) :
    (t.emit (.armTimeout id after)).Scans := by
  have hk : ∀ e ∈ [Entry.effect (.armTimeout id after)], e.isSilent = true ∧ e.isPlain = true := by
    simp [Entry.isSilent, Entry.isPlain]
  refine h.of_silent (fun e he ↦ (hk e he).1) rfl rfl rfl rfl rfl rfl (fun p hp ↦ ?_)
    (confines_of_plain (fun e he ↦ (hk e he).2) _)
  obtain ⟨hsource, hroute, hreads, hpolled, hstopped, halone⟩ := h.carries p hp
  exact ⟨hsource, hroute, hreads, hpolled, hstopped, halone⟩

theorem Scans.ready (h : t.Scans) (hstate : t.radio.state = .invalid) :
    (t.enter .idle).Scans := by
  have hpending : t.radio.pending = none := by
    by_contra hpending
    obtain ⟨p, hp⟩ := Option.ne_none_iff_exists'.mp hpending
    have hroute := (h.carries p hp).route
    simp [hstate, route] at hroute
  have hplain : ∀ e ∈ Journal.ofChange t.radio.state .idle ++
      Journal.ofPoll .idle t.radio.generation t.radio.timing.pollInterval,
      e.isSilent = true ∧ e.isPlain = true := by
    simp [hstate, Journal.ofChange, Journal.ofPoll, Entry.isSilent, Entry.isPlain,
      Notification.isScanResult]
  have hjournal : (t.enter .idle).journal = t.journal ++
      (Journal.ofChange t.radio.state .idle ++
        Journal.ofPoll .idle t.radio.generation t.radio.timing.pollInterval) := by simp
  refine h.extend [] hjournal (by simp) ?_ ?_ (by simp) (by simp) (by simp)
    (by simp [hpending]) ?_ (by simp) (confines_of_plain (fun e he ↦ (hplain e he).2) _)
  · rw [hjournal, Journal.view_append, Journal.foldl_of_silent fun e he ↦ (hplain e he).1,
      List.append_nil]
  · intro q
    simp only [List.not_mem_nil, iff_false]
    intro hq
    simpa [Entry.isSilent] using (hplain _ hq).1
  · intro q _ _ before during ahead hdue
    exact (hdue.valid (by simp [Controller.upcoming, hpending, hstate])).elim

theorem Scans.enqueue (h : t.Scans) {r : Request} (hclient : r.operation.isClient = true) :
    (t.enqueue r).Scans := by
  have hview : (t.enqueue r).journal.view = { t.journal.view with
      waiting := t.journal.view.waiting ++ [⟨t.radio.arrivals, r⟩] } := by
    rw [enqueue_journal, Journal.view_append]
    rfl
  refine h.extend [⟨t.radio.arrivals, r⟩] (enqueue_journal t r) (by simp) (by rw [hview])
    (by simp) (by simp) ?_ ?_ ?_ ?_ ?_ ?_
  · intro q hq
    cases List.mem_singleton.mp hq
    refine ⟨by simp, fun mode hmode ↦ ?_⟩
    rw [show r.operation = .pollScan mode from hmode] at hclient
    cases hclient
  · rw [hview]
    exact h.mode
  · intro p hp
    obtain ⟨hsource, hroute, hreads, hpolled, hstopped, halone⟩ := h.carries p hp
    refine ⟨hsource, hroute, hreads, hpolled, hstopped, fun mode hmode q hq ↦ ?_⟩
    rcases List.mem_append.mp hq with hq | hq
    · exact halone mode hmode q hq
    · cases List.mem_singleton.mp hq
      exact hclient
  · intro q _ _ before during ahead hdue
    refine hdue.extend hdue.valid ?_ fun _ ↦ by rw [hview]; exact ⟨rfl, id⟩
    by_cases herror : t.radio.state = .error
    · exact .inl herror
    · refine .inr ⟨herror, fun scans ↦ ?_⟩
      rw [show Journal.scans [_] = 0 from rfl, Nat.zero_add]
      rfl
  · intro q hq hfollow
    cases List.mem_singleton.mp hq
    simp [hclient] at hfollow
  · intro before e after hk
    obtain ⟨rfl, rfl⟩ := eq_of_singleton_split hk
    trivial

theorem continues_of_begins {progress : Progress} {a : Attributes}
    (h : p.action.Begins accepts a progress) (hstatus : progress.action.status = .running) :
    Continues p progress := by
  cases h with
  | empty => simp at hstatus
  | refused => simp at hstatus
  | issued => exact ⟨rfl, rfl, id, rfl⟩

theorem continues_of_advances {progress : Progress} {callback : Callback} {a : Attributes}
    (h : p.action.Advances accepts callback a progress)
    (hstatus : progress.action.status = .running) : Continues p progress := by
  cases h with
  | stopped hcommand hcomplete hverdict =>
      have hterminal := Action.verdict_status_isTerminal hverdict
      simp_all [Status.isTerminal]
  | finished => simp at hstatus
  | refused => simp at hstatus
  | issued hcommand hcomplete =>
      refine ⟨rfl, rfl, fun hreads command hmem ↦ ?_, rfl⟩
      rcases List.mem_or_eq_of_mem_set hmem with hmem | rfl
      · exact hreads command hmem
      · rw [(Command.verdict_of_complete hcomplete).1]
        exact hreads _ (List.mem_of_getElem? hcommand)

theorem closes_of_begins {progress : Progress} {c : Controller} {r : Request} {plan : Plan}
    {destination : RadioState}
    (hbuilt : Plan.Built c.timing c.attributes c.scanMode r.operation plan)
    (h : plan.action.Begins accepts c.attributes progress)
    (hstatus : progress.action.status.isTerminal = true) :
    Closes (c.transition r destination plan.action) progress := by
  cases h with
  | empty hcommands hhook =>
      exact ⟨rfl, by simp, .inl (hbuilt.followups_of_empty hcommands hhook)⟩
  | refused => exact ⟨rfl, by simp, .inl rfl⟩
  | issued => simp [Status.isTerminal] at hstatus

theorem closes_of_advances {progress : Progress} {callback : Callback} {a : Attributes}
    (hreads : (∀ mode, p.action.operation ≠ .pollScan mode) →
      ∀ command ∈ p.action.commands, command.isRead = false)
    (hrunning : p.action.status = .running) (h : p.action.Advances accepts callback a progress)
    (hstatus : progress.action.status.isTerminal = true) : Closes p progress := by
  cases h with
  | @stopped command completed verdict b followups hcommand hcomplete hverdict hhook =>
      refine ⟨rfl, fun hunsuccessful ↦ ?_, Hook.followups_of_apply hhook⟩
      by_contra hpoll
      have hread := hreads (fun mode hmode ↦ hpoll ⟨mode, hmode⟩) command
        (List.mem_of_getElem? hcommand)
      rcases (Command.verdict_of_complete hcomplete).2 hread with rfl | rfl
      · exact hverdict rfl
      · simp [Verdict.status] at hunsuccessful
  | finished hcommand hcomplete hlast hhook =>
      exact ⟨rfl, by simp, Hook.followups_of_apply hhook⟩
  | refused => exact ⟨rfl, by simp, .inl rfl⟩
  | issued => simp [hrunning, Status.isTerminal] at hstatus

theorem Move.scans (h : Move accepts e t u) (ht : t.Scans) (hsteady : t.radio.Steady)
    (hrested : e ≠ none → t.radio.Rested)
    (hrequest : ∀ r, e = some (.request r) → r.operation.isClient = true) : u.Scans := by
  cases h with
  | ready hstate => exact ht.ready hstate
  | arrive r => exact ht.enqueue (hrequest r rfl)
  | decline htaken hdecline => exact ht.decline htaken hdecline
  | begin htaken hroute hplan hbegins hstatus =>
      have hlaunched := ht.launched hrested htaken hroute hplan
      have hhold := hlaunched.hold rfl (continues_of_begins hbegins hstatus)
      rw [launched_hold] at hhold
      exact hhold.emit_armTimeout _ _
  | flash htaken hroute hplan hbegins hstatus =>
      have hlaunched := ht.launched hrested htaken hroute hplan
      rw [← launched_settle]
      exact hlaunched.settle rfl (closes_of_begins (Plan.built_of_build hplan) hbegins hstatus)
  | advance hpending hadvances hstatus =>
      exact ht.hold hpending (continues_of_advances hadvances hstatus)
  | finish hpending hadvances hstatus =>
      exact ht.settle hpending (closes_of_advances (ht.carries _ hpending).reads
        (hsteady _ hpending) hadvances hstatus)
  | expire hpending => exact ht.settle hpending ⟨rfl, by simp, .inl rfl⟩

end Turn

variable {timing : Timing} {script : List (Event × (Call → Bool))} {t : Turn}

theorem Controller.initial_scans (timing : Timing) : Turn.Scans { radio := initial timing } := by
  refine ⟨rfl, by simp, by simp, by simp [initial], by simp [initial], by simp, ?_⟩
  intro earlier e later h
  simp at h

theorem Controller.run_scans
    (hclients : ∀ r accepts, (.request r, accepts) ∈ script → r.operation.isClient = true)
    (h : (initial timing).run script = .ok t) : t.Scans := by
  refine (run_induction (initial_scans timing) ?_ ?_ h).1
  · intro event accepts t u hmem ht hsteady hrested hmove
    refine hmove.scans ht hsteady (fun _ ↦ hrested) fun r hr ↦ ?_
    cases hr
    exact hclients r accepts hmem
  · intro accepts t u ht hsteady hmove
    exact hmove.scans ht hsteady (by simp) (by simp)

/-- As long as clients ask only for what is theirs to ask for, a follow-up that begins does so in the
scan that it was made in, unless the requests before it took the radio out of that scan and into
another. A result is reported only when such a follow-up begins; it is that of the scan going on,
and says that the scan was stopped only if it was, unless the follow-up was diverted. -/
theorem followup_begins_in_its_scan_unless_diverted
    (hclients : ∀ r accepts, (.request r, accepts) ∈ script → r.operation.isClient = true)
    (h : (Controller.initial timing).run script = .ok t) :
    (∀ before q during p, t.journal.CarriesOut before q during p →
      q.request.operation.isClient = false →
        (during.scans ≠ 0 ↔ Diverting before.backlog)) ∧
    (∀ (earlier : Journal) n later, t.journal = earlier ++ .effect (.notify n) :: later →
      n.isScanResult = true →
        ∃ before q during p mode aborted a, earlier.CarriesOut before q during p ∧
          q.request.operation = .scanDone mode aborted ∧ n = Plan.scanNotice mode aborted a ∧
            before.view.mode = some mode ∧ (during.scans ≠ 0 ↔ Diverting before.backlog) ∧
              (during.scans = 0 → earlier.view.mode = some mode ∧
                (aborted = true → earlier.view.stopped = true))) := by
  have hconfines := (Controller.run_scans hclients h).confines
  constructor
  · rintro before q during p ⟨passed, c, c', later, hsplit, hoperation⟩ hclient
    refine hconfines (before ++ .queued q :: during ++ [.dispatched q passed c]) (.begun p c') later
      (by rw [hsplit]; simp) before q during passed c rfl hclient hoperation
  · intro earlier n later hsplit hresult
    exact hconfines earlier (.effect (.notify n)) later hsplit hresult

/-- A scan that is stopped twice, with another scan asked for in between. -/
def scanBehindStops : List (Event × (Call → Bool)) :=
  [.ready, .request ⟨none, .start .europeUs⟩, .callback (.power true),
    .callback (.vendor 0xfc15 [0, 0, 0]), .callback .delayElapsed,
    .callback (.vendor 0xfc15 [0, 1, 0]), .callback (.vendor 0xfc15 [0, 5, 0]),
    .request ⟨none, .scanUp⟩, .callback (.vendor 0xfc15 [0, 7, 0]),
    .callback (.vendor 0xfc15 [0, 9, 0]), .request ⟨none, .stopScan⟩, .request ⟨none, .stopScan⟩,
    .request ⟨none, .fullScan⟩, .callback (.vendor 0xfc15 [0, 9, 0]),
    .callback (.vendor 0xfc15 [0, 9, 0]), .callback (.vendor 0xfc15 [0, 10, 0]),
    .callback (.vendor 0xfc15 [0, 7, 0]), .callback (.vendor 0xfc15 [0, 9, 0])].map
      fun event ↦ (event, fun _ ↦ true)

theorem scanBehindStops_clients : ∀ r accepts, (.request r, accepts) ∈ scanBehindStops →
    r.operation.isClient = true := by
  have hclients : ∀ x ∈ scanBehindStops, ∀ r, x.1 = .request r → r.operation.isClient = true := by
    simp [scanBehindStops, Operation.isClient]
  exact fun r accepts hmem ↦ hclients _ hmem r rfl

theorem first_stop_reported_in_its_scan :
    ∃ t earlier later before q during p, (Controller.initial {}).run scanBehindStops = .ok t ∧
      t.journal = earlier ++ .effect (.notify (.scanResult none none .up true)) :: later ∧
        earlier.view.mode = some .up ∧ earlier.view.stopped = true ∧
          Journal.CarriesOut earlier before q during p ∧
            (Journal.scans during ≠ 0 ↔ Diverting (Journal.backlog before)) := by
  obtain ⟨t, hrun, hsplit, hmode, hstopped⟩ : ∃ t,
      (Controller.initial {}).run scanBehindStops = .ok t ∧
        t.journal = t.journal.take 56 ++
          .effect (.notify (.scanResult none none .up true)) :: t.journal.drop 57 ∧
        (Journal.view (t.journal.take 56)).mode = some .up ∧
          (Journal.view (t.journal.take 56)).stopped = true := by
    refine ⟨_, rfl, ?_, ?_, ?_⟩ <;> decide
  obtain ⟨before, q, during, p, mode, aborted, a, hcarries, -, -, -, hdiverting, -⟩ :=
    (followup_begins_in_its_scan_unless_diverted scanBehindStops_clients hrun).2 _ _ _ hsplit rfl
  exact ⟨t, _, _, before, q, during, p, hrun, hsplit, hmode, hstopped, hcarries, hdiverting⟩

/-- The second stop is reported in the scan that began after the first: it ends a scan that has not
been stopped, and reports the end of one that was over. -/
theorem second_stop_reported_in_next_scan :
    ∃ t earlier later before q during p, (Controller.initial {}).run scanBehindStops = .ok t ∧
      (∀ r accepts, (.request r, accepts) ∈ scanBehindStops → r.operation.isClient = true) ∧
        t.journal = earlier ++ .effect (.notify (.scanResult none none .up true)) :: later ∧
          earlier.view.mode = some .full ∧ earlier.view.stopped = false ∧
            Journal.CarriesOut earlier before q during p ∧
              q.request.operation.isClient = false ∧ Journal.scans during ≠ 0 := by
  obtain ⟨t, hrun, hsplit, hmode, hstopped⟩ : ∃ t,
      (Controller.initial {}).run scanBehindStops = .ok t ∧
        t.journal = t.journal.take 74 ++
          .effect (.notify (.scanResult none none .up true)) :: t.journal.drop 75 ∧
        (Journal.view (t.journal.take 74)).mode = some .full ∧
          (Journal.view (t.journal.take 74)).stopped = false := by
    refine ⟨_, rfl, ?_, ?_, ?_⟩ <;> decide
  have hconfines := (Controller.run_scans scanBehindStops_clients hrun).confines
  obtain ⟨before, q, during, p, mode, aborted, a, hcarries, hoperation, hnotice, -, -, hown⟩ :=
    hconfines _ _ _ hsplit rfl
  refine ⟨t, _, _, before, q, during, p, hrun, scanBehindStops_clients, hsplit, hmode, hstopped,
    hcarries, by rw [hoperation]; rfl, fun hscans ↦ ?_⟩
  -- In its own scan it would report the mode of that scan.
  have hsame := (hown hscans).1
  rw [hmode] at hsame
  cases hsame
  simp [Plan.scanNotice] at hnotice

end FmTuner
