import FmTuner.Proofs.Moves
import FmTuner.Proofs.ScanViews
import Mathlib.Data.List.Basic

/-!
# What is due of follow-ups

The steps of a scan are requests that the controller asks of itself at the end of a poll or a stop,
and they queue behind whatever waits by then. The invariant `Turn.Scans` predicts, from the backlog
that a follow-up finds when it joins the queue, in which state and how many scans later it is
dispatched. Transitions that go on keep it, and so do those that end.
-/

namespace FmTuner

namespace Journal

/-- A property of every entry and what has gone before it. -/
def Each (P : Journal → Entry → Prop) (j : Journal) : Prop :=
  ∀ earlier e later, j = earlier ++ e :: later → P earlier e

theorem each_append {P : Journal → Entry → Prop} {j k : Journal} (hj : j.Each P)
    (hk : ∀ before e after, k = before ++ e :: after → P (j ++ before) e) : (j ++ k).Each P := by
  intro earlier e later h
  rcases List.append_eq_append_iff.mp h with ⟨before, rfl, hbefore⟩ | ⟨after, rfl, hafter⟩
  · exact hk before e later hbefore
  · cases after with
    | nil =>
        have hfirst := hk [] e later (by simpa using hafter.symm)
        simpa using hfirst
    | cons x after =>
        cases hafter
        exact hj earlier e after rfl

/-- A request joins the queue after `before`, and after `during` it leaves the queue and begins the
transition `p`. -/
def CarriesOut (j before : Journal) (q : Queued) (during : Journal) (p : Pending) : Prop :=
  ∃ passed c c' later,
    j = before ++ .queued q :: during ++ .dispatched q passed c :: .begun p c' :: later ∧
      p.action.operation = q.request.operation

/-- What is true of an entry in the light of what has gone before. A follow-up that begins does so
in a later scan exactly if its backlog diverted it; and every report of a scan is made for a
follow-up that reports its own scan, unless it was diverted. -/
def Confines (earlier : Journal) : Entry → Prop
  | .begun p _ =>
      ∀ (before : Journal) q (during : Journal) passed c,
        earlier = before ++ .queued q :: during ++ [.dispatched q passed c] →
        q.request.operation.isClient = false → p.action.operation = q.request.operation →
          (during.scans ≠ 0 ↔ Diverting before.backlog)
  | .effect (.notify n) =>
      n.isScanResult = true →
        ∃ (before : Journal) (q : Queued) (during : Journal) (p : Pending) (mode : ScanMode)
            (aborted : Bool) (a : Attributes), earlier.CarriesOut before q during p ∧
          q.request.operation = .scanDone mode aborted ∧ n = Plan.scanNotice mode aborted a ∧
            before.view.mode = some mode ∧ (during.scans ≠ 0 ↔ Diverting before.backlog) ∧
              (during.scans = 0 → earlier.view.mode = some mode ∧
                (aborted = true → earlier.view.stopped = true))
  | _ => True

theorem confines_of_isPlain {e : Entry} (h : e.isPlain = true) (earlier : Journal) :
    earlier.Confines e := by
  cases e with
  | effect f =>
      cases f with
      | notify n =>
          intro hn
          simp [Entry.isPlain, hn] at h
      | _ => trivial
  | begun => simp [Entry.isPlain] at h
  | _ => trivial

end Journal

/-! ## What a turn keeps about scans -/

def Controller.upcoming (c : Controller) : RadioState :=
  match c.pending with
  | some p => p.destination
  | none => c.state

namespace Turn

/-- The transition in flight, as far as scans go. -/
structure Carries (t : Turn) (p : Pending) : Prop where
  source : p.source = t.radio.state
  route : route t.radio.state p.action.operation = .accept p.destination
  /-- Only a poll can be without success and without error. -/
  reads : (∀ mode, p.action.operation ≠ .pollScan mode) →
    ∀ command ∈ p.action.commands, command.isRead = false
  polled : ∀ mode capacity, p.action.hook = .scanPolled mode capacity →
    p.action.operation = .pollScan mode ∧ t.radio.scanMode = some mode
  stopped : ∀ mode, p.action.hook = .scanStopped mode →
    p.action.operation = .stopScan ∧ t.radio.scanMode = some mode
  /-- No follow-up waits for a poll. -/
  alone : ∀ mode, p.action.operation = .pollScan mode →
    ∀ q ∈ t.radio.queue, q.request.operation.isClient = true

/-- What will become of a follow-up that joined the queue behind the backlog of `before`: `during`
has happened since, and `ahead` is still in front of it. -/
structure Due (t : Turn) (before during : Journal) (ahead : List Queued) (q : Queued) : Prop where
  valid : t.radio.upcoming ≠ .invalid
  play : t.radio.state = .error ∨
    play .scanning 0 before.backlog =
      play t.radio.upcoming
        (during.scans + RadioState.enters t.radio.state t.radio.upcoming)
        (ahead.map fun r ↦ r.request.operation)
  report : ∀ mode aborted, q.request.operation = .scanDone mode aborted →
    before.view.mode = some mode ∧
      (during.scans = 0 → t.journal.view.mode = some mode ∧
        (aborted = true → t.journal.view.stopped = true))

structure Scans (t : Turn) : Prop where
  queue : t.radio.queue = t.journal.view.waiting
  tickets : ∀ q, .queued q ∈ t.journal → q.ticket < t.radio.arrivals
  polls : ∀ q mode, .queued q ∈ t.journal → q.request.operation ≠ .pollScan mode
  mode : t.radio.state = .scanning → t.radio.scanMode = t.journal.view.mode
  carries : ∀ p, t.radio.pending = some p → t.Carries p
  due : ∀ q, q.request.operation.isClient = false →
    ∀ before during, t.journal = before ++ .queued q :: during →
      ∀ ahead behind, t.radio.queue = ahead ++ q :: behind → t.Due before during ahead q
  confines : t.journal.Each Journal.Confines

variable {accepts : Call → Bool} {e : Option Event} {t u : Turn} {p : Pending}
  {before during k : Journal} {ahead ahead' : List Queued} {q : Queued}

/-- What is due stays due while the prediction stands. -/
theorem Due.extend (h : t.Due before during ahead q)
    (hvalid : u.radio.upcoming ≠ .invalid)
    (hplay : u.radio.state = .error ∨ t.radio.state ≠ .error ∧
      ∀ scans, FmTuner.play t.radio.upcoming
          (scans + RadioState.enters t.radio.state t.radio.upcoming)
          (ahead.map fun r ↦ r.request.operation) =
        FmTuner.play u.radio.upcoming
          (scans + (k.scans + RadioState.enters u.radio.state u.radio.upcoming))
          (ahead'.map fun r ↦ r.request.operation))
    (hview : k.scans = 0 → u.journal.view.mode = t.journal.view.mode ∧
      (t.journal.view.stopped = true → u.journal.view.stopped = true)) :
    u.Due before (during ++ k) ahead' q := by
  refine ⟨hvalid, ?_, fun mode aborted hq ↦ ?_⟩
  · rcases hplay with herror | ⟨hne, hplay⟩
    · exact .inl herror
    · refine .inr ?_
      rw [h.play.resolve_left hne, hplay, Journal.scans_append, Nat.add_assoc]
  · obtain ⟨hmode, hreport⟩ := h.report mode aborted hq
    refine ⟨hmode, fun hscans ↦ ?_⟩
    rw [Journal.scans_append] at hscans
    obtain ⟨hnow, hstopped⟩ := hreport (by omega)
    obtain ⟨hsame, hstill⟩ := hview (by omega)
    exact ⟨hsame.trans hnow, fun haborted ↦ hstill (hstopped haborted)⟩

/-- What is known stays known as the journal and the queue get longer, provided that it becomes
known of what joins the queue and that what was due stays due. -/
theorem Scans.extend (h : t.Scans) (new : List Queued) (hjournal : u.journal = t.journal ++ k)
    (hqueue : u.radio.queue = t.radio.queue ++ new)
    (hwaiting : u.journal.view.waiting = t.journal.view.waiting ++ new)
    (hqueued : ∀ q, .queued q ∈ k ↔ q ∈ new) (harrivals : t.radio.arrivals ≤ u.radio.arrivals)
    (hnew : ∀ q ∈ new, q.ticket < u.radio.arrivals ∧
      ∀ mode, q.request.operation ≠ .pollScan mode)
    (hmode : u.radio.state = .scanning → u.radio.scanMode = u.journal.view.mode)
    (hcarries : ∀ p, u.radio.pending = some p → u.Carries p)
    (hdue : ∀ q ∈ t.radio.queue, q.request.operation.isClient = false →
      ∀ before during ahead, t.Due before during ahead q → u.Due before (during ++ k) ahead q)
    (hdueNew : ∀ q ∈ new, q.request.operation.isClient = false →
      ∀ before during, u.journal = before ++ .queued q :: during →
        ∀ ahead behind, u.radio.queue = ahead ++ q :: behind → u.Due before during ahead q)
    (hconfines : ∀ before e after, k = before ++ e :: after →
      Journal.Confines (t.journal ++ before) e) : u.Scans := by
  have hcases : ∀ q, .queued q ∈ u.journal → .queued q ∈ t.journal ∨ q ∈ new := fun q hq ↦ by
    rw [hjournal, List.mem_append, hqueued] at hq
    exact hq
  refine ⟨?_, fun q hq ↦ ?_, fun q mode hq ↦ ?_, hmode, hcarries, ?_, ?_⟩
  · rw [hqueue, hwaiting, h.queue]
  · rcases hcases q hq with hold | hnow
    · exact (h.tickets q hold).trans_le harrivals
    · exact (hnew q hnow).1
  · rcases hcases q hq with hold | hnow
    · exact h.polls q mode hold
    · exact (hnew q hnow).2 mode
  · intro q hclient before during hsplit ahead behind hahead
    by_cases hnow : q ∈ new
    · exact hdueNew q hnow hclient before during hsplit ahead behind hahead
    · rw [hjournal] at hsplit
      rw [hqueue] at hahead
      obtain ⟨between, hbefore, rfl⟩ := split_of_not_mem hsplit ((hqueued q).not.mpr hnow)
      obtain ⟨behind', hfront, -⟩ := split_of_not_mem hahead hnow
      exact hdue q (by simp [hfront]) hclient before between ahead
        (h.due q hclient before between hbefore ahead behind' hfront)
  · rw [hjournal]
    exact Journal.each_append h.confines hconfines

theorem Scans.of_silent (h : t.Scans) (hk : ∀ e ∈ k, e.isSilent = true)
    (hjournal : u.journal = t.journal ++ k) (hstate : u.radio.state = t.radio.state)
    (hqueue : u.radio.queue = t.radio.queue) (hscanMode : u.radio.scanMode = t.radio.scanMode)
    (harrivals : u.radio.arrivals = t.radio.arrivals)
    (hupcoming : u.radio.upcoming = t.radio.upcoming)
    (hcarries : ∀ p, u.radio.pending = some p → u.Carries p)
    (hconfines : ∀ before e after, k = before ++ e :: after →
      Journal.Confines (t.journal ++ before) e) : u.Scans := by
  have hview : u.journal.view = t.journal.view := by
    rw [hjournal, Journal.view_append, Journal.foldl_of_silent hk]
  have hscans : k.scans = 0 := by
    rw [Journal.scans, Journal.view, Journal.foldl_of_silent hk]
  refine h.extend [] hjournal (by simp [hqueue]) (by simp [hview]) (fun q ↦ ?_)
    harrivals.ge (by simp) (fun hs ↦ ?_) hcarries ?_ (by simp) hconfines
  · simp only [List.not_mem_nil, iff_false]
    intro hq
    simpa [Entry.isSilent] using hk _ hq
  · rw [hscanMode, hview]
    exact h.mode (hstate ▸ hs)
  · intro q _ _ before during ahead hdue
    refine hdue.extend (hupcoming ▸ hdue.valid) ?_ fun _ ↦ by rw [hview]; exact ⟨rfl, id⟩
    by_cases herror : t.radio.state = .error
    · exact .inl (hstate.trans herror)
    · exact .inr ⟨herror, fun scans ↦ by rw [hupcoming, hstate, hscans, Nat.zero_add]⟩

theorem confines_of_plain (hk : ∀ e ∈ k, e.isPlain = true) (earlier before : Journal) (e : Entry)
    (after : Journal) (h : k = before ++ e :: after) : Journal.Confines (earlier ++ before) e :=
  Journal.confines_of_isPlain (hk e (by simp [h])) _

/-! ## Transitions that go on -/

/-- An action that goes on is still the same action. -/
structure Continues (p : Pending) (progress : Progress) : Prop where
  operation : progress.action.operation = p.action.operation
  hook : progress.action.hook = p.action.hook
  reads : (∀ command ∈ p.action.commands, command.isRead = false) →
    ∀ command ∈ progress.action.commands, command.isRead = false
  followups : progress.followups = []

theorem Scans.hold (h : t.Scans) (hpending : t.radio.pending = some p) {progress : Progress}
    (hcontinues : Continues p progress) : (t.hold p progress).Scans := by
  obtain ⟨hoperation, hhook, hreads, hfollowups⟩ := hcontinues
  obtain ⟨hsource, hroute, hcommands, hpolled, hstopped, halone⟩ := h.carries p hpending
  have hsilent := Journal.silent_ofCall progress
  refine h.of_silent (fun e he ↦ (hsilent e he).1) ?_ ?_ ?_ ?_ ?_ ?_ ?_
    (confines_of_plain (fun e he ↦ (hsilent e he).2) _)
  · simp [Journal.ofProgress_eq, hfollowups]
  · simp
  · simp [hfollowups]
  · simp
  · simp [hfollowups]
  · simp [Controller.upcoming, hpending]
  · intro r hr
    simp only [hold_radio, Option.some.injEq] at hr
    subst hr
    refine ⟨by simpa using hsource, ?_, ?_, ?_, ?_, ?_⟩
    · simpa [hoperation] using hroute
    · exact fun hpoll ↦ hreads (hcommands (hoperation ▸ hpoll))
    · intro mode capacity hm
      simpa [hoperation] using hpolled mode capacity (hhook ▸ hm)
    · intro mode hm
      simpa [hoperation] using hstopped mode (hhook ▸ hm)
    · intro mode hm
      simpa [hfollowups] using halone mode (hoperation ▸ hm)

/-! ## Transitions that end -/

/-- An action that ends has gone well or into an error, unless it polls; and what follows it is
what its hook asks for. -/
structure Closes (p : Pending) (progress : Progress) : Prop where
  operation : progress.action.operation = p.action.operation
  unsuccessful : progress.action.status = .cancel ∨ progress.action.status = .fail →
    ∃ mode, p.action.operation = .pollScan mode
  followups : progress.followups = [] ∨
    ∃ operation, progress.followups = [operation] ∧
      p.action.hook.Follows progress.action.status operation

theorem resolution_cases (p : Pending) (timedOut : Bool) :
    p.action.status = .done ∧ (resolution p timedOut).1 = p.destination ∨
      (p.action.status = .cancel ∨ p.action.status = .fail) ∧
        (resolution p timedOut).1 = p.source ∨
        p.action.status ≠ .done ∧ (resolution p timedOut).1 = .error := by
  cases hstatus : p.action.status <;> simp [resolution, hstatus]

theorem settle_view (p : Pending) (progress : Progress) (armed timedOut : Bool) :
    (t.settle p progress armed timedOut).journal.view =
      (ScanView.change
        { t.journal.view with
          waiting := t.journal.view.waiting ++
            Journal.followups t.radio.arrivals progress.followups }
        t.radio.state (resolution { p with action := progress.action } timedOut).1).note
        (.resolved { p with action := progress.action } timedOut
          (Controller.resolved (t.settling progress) { p with action := progress.action }
            timedOut)) := by
  rw [settle_journal, Journal.view_append, Journal.view_append, Journal.foldl_ofEnd,
    Journal.foldl_ofProgress]
  rfl

/-- The entries that the end of a transition adds. -/
def ending (t : Turn) (p : Pending) (progress : Progress) (armed timedOut : Bool) :
    Journal :=
  Journal.ofProgress t.radio.arrivals progress ++
    Journal.ofEnd (t.settling progress) { p with action := progress.action } armed timedOut

section

variable {progress : Progress} {armed timedOut : Bool}

theorem settle_append (p : Pending) (progress : Progress) (armed timedOut : Bool) :
    (t.settle p progress armed timedOut).journal =
      t.journal ++ t.ending p progress armed timedOut := by
  rw [settle_journal, ending, List.append_assoc]

theorem settle_state (p : Pending) (progress : Progress) (armed timedOut : Bool) :
    (t.settle p progress armed timedOut).radio.state =
        (resolution { p with action := progress.action } timedOut).1 ∧
      (t.settle p progress armed timedOut).radio.upcoming =
        (resolution { p with action := progress.action } timedOut).1 := by
  simp [Controller.upcoming, Controller.resolved]

theorem ending_scans (p : Pending) (progress : Progress) (armed timedOut : Bool) :
    (t.ending p progress armed timedOut).scans =
      RadioState.enters t.radio.state
        (resolution { p with action := progress.action } timedOut).1 := by
  have hprogress : (Journal.ofProgress t.radio.arrivals progress).scans = 0 := by
    rw [Journal.scans, Journal.view, Journal.foldl_ofProgress]
  rw [ending, Journal.scans_append, hprogress, Journal.scans_ofEnd, Nat.zero_add]
  rfl

theorem mem_ending (p : Pending) (progress : Progress) (armed timedOut : Bool) (q : Queued) :
    .queued q ∈ t.ending p progress armed timedOut ↔
      q ∈ Journal.followups t.radio.arrivals progress.followups := by
  rw [ending, List.mem_append, Journal.ofProgress_eq, List.mem_append]
  constructor
  · rintro ((h | h) | h)
    · simpa [Entry.isPlain] using (Journal.silent_ofCall progress _ h).2
    · simpa using h
    · simpa [Entry.isPlain] using Journal.plain_ofEnd _ _ _ _ _ h
  · intro h
    exact .inl (.inr (List.mem_map_of_mem h))

theorem Scans.due_of_settle (h : t.Scans) (hpending : t.radio.pending = some p)
    (hcloses : Closes p progress) (hclient : q.request.operation.isClient = false)
    (hdue : t.Due before during ahead q) (hmem : q ∈ t.radio.queue) :
    (t.settle p progress armed timedOut).Due before
      (during ++ t.ending p progress armed timedOut) ahead q := by
  obtain ⟨-, hroute, -, -, -, halone⟩ := h.carries p hpending
  obtain ⟨⟨-, hnotError⟩, ⟨hvalid, -⟩, henters, -⟩ := RadioState.states_of_accept hroute
  have hupcoming : t.radio.upcoming = p.destination := by simp [Controller.upcoming, hpending]
  obtain ⟨hstate, hnext⟩ := t.settle_state p progress armed timedOut
  have hscans := t.ending_scans p progress armed timedOut
  rcases resolution_cases { p with action := progress.action } timedOut with
    ⟨hdone, htarget⟩ | ⟨hfailed, -⟩ | ⟨hnotDone, htarget⟩
  · have hdone' : progress.action.status = .done := hdone
    refine hdue.extend (by rw [hnext, htarget]; exact hvalid)
      (.inr ⟨hnotError, fun scans ↦ ?_⟩) fun hnone ↦ ?_
    · rw [hnext, hstate, hscans, htarget, hupcoming, RadioState.enters_self, Nat.add_zero]
    · rw [hscans, htarget] at hnone
      have hmode : p.action.operation.scanMode = none := by
        rw [← Option.not_isSome_iff_eq_none]
        intro hsome
        rw [henters hsome] at hnone
        exact Nat.one_ne_zero hnone
      rw [settle_view, ScanView.note_resolved, if_pos hdone, htarget, ScanView.change, if_pos hnone]
      simp only [hcloses.operation, hmode, Option.none_or, true_and]
      intro hstopped
      simp [hstopped]
  · obtain ⟨mode, hpoll⟩ := hcloses.unsuccessful hfailed
    simp [halone mode hpoll q hmem] at hclient
  · refine hdue.extend (by rw [hnext, htarget]; simp) (.inl (hstate.trans htarget)) fun _ ↦ ?_
    rw [settle_view, ScanView.note_resolved, if_neg hnotDone, htarget, ScanView.change,
      if_pos (by simp [RadioState.enters])]
    exact ⟨rfl, id⟩

/-- What a transition asks for to follow it belongs to the scan that is going on. -/
theorem Carries.of_follows (h : t.Carries p) {status : Status} {operation : Operation}
    (hfollows : p.action.hook.Follows status operation) :
    t.radio.state = .scanning ∧ p.destination = .scanning ∧ p.action.operation.scanMode = none ∧
      (status = .done ∨ status = .fail) ∧ (∀ mode, operation ≠ .pollScan mode) ∧
      ∀ mode aborted, operation = .scanDone mode aborted → t.radio.scanMode = some mode ∧
        (aborted = true → status = .done ∧ p.action.operation = .stopScan) := by
  have hpoll : ∀ mode capacity, p.action.hook = .scanPolled mode capacity →
      t.radio.state = .scanning ∧ p.destination = .scanning ∧
        p.action.operation.scanMode = none ∧ t.radio.scanMode = some mode := by
    intro mode capacity hhook
    obtain ⟨hoperation, hmode⟩ := h.polled mode capacity hhook
    have hroute := h.route
    rw [hoperation] at hroute
    obtain ⟨hstate, hdestination⟩ := RadioState.scanning_of_accept hroute (.inr rfl)
    exact ⟨hstate, by simpa using hdestination, by rw [hoperation]; rfl, hmode⟩
  cases hfollows with
  | step hhook =>
      obtain ⟨hstate, hdestination, hnone, -⟩ := hpoll _ _ hhook
      exact ⟨hstate, hdestination, hnone, .inl rfl, by simp, by simp⟩
  | polled hhook hstatus =>
      obtain ⟨hstate, hdestination, hnone, hmode⟩ := hpoll _ _ hhook
      refine ⟨hstate, hdestination, hnone, hstatus, by simp, fun mode aborted heq ↦ ?_⟩
      cases heq
      exact ⟨hmode, by simp⟩
  | stopped hhook =>
      obtain ⟨hoperation, hmode⟩ := h.stopped _ hhook
      have hroute := h.route
      rw [hoperation] at hroute
      obtain ⟨hstate, hdestination⟩ := RadioState.scanning_of_accept hroute (.inl rfl)
      refine ⟨hstate, by simpa using hdestination, by rw [hoperation]; rfl, .inl rfl, by simp,
        fun mode aborted heq ↦ ?_⟩
      cases heq
      exact ⟨hmode, fun _ ↦ ⟨rfl, hoperation⟩⟩

/-- A follow-up is due as soon as it joins the queue. -/
theorem Scans.due_of_follows (h : t.Scans) (hpending : t.radio.pending = some p)
    {operation : Operation} (hoperation : progress.action.operation = p.action.operation)
    (hfollowups : progress.followups = [operation])
    (hfollows : p.action.hook.Follows progress.action.status operation)
    (hsplit : (t.settle p progress armed timedOut).journal =
      before ++ .queued ⟨t.radio.arrivals, ⟨none, operation⟩⟩ :: during)
    {behind : List Queued} (hahead : (t.settle p progress armed timedOut).radio.queue =
      ahead ++ ⟨t.radio.arrivals, ⟨none, operation⟩⟩ :: behind) :
    (t.settle p progress armed timedOut).Due before during ahead
      ⟨t.radio.arrivals, ⟨none, operation⟩⟩ := by
  obtain ⟨hstate, hdestination, hnone, hstatus, -, hdone⟩ :=
    (h.carries p hpending).of_follows hfollows
  have htarget : (resolution { p with action := progress.action } timedOut).1 = .scanning := by
    have hsource := (h.carries p hpending).source
    rcases hstatus with hstatus | hstatus <;>
      simp [resolution, hstatus, hdestination, hsource, hstate]
  -- The ticket is new, so that there is just one place where it can stand.
  have hnew : .queued ⟨t.radio.arrivals, ⟨none, operation⟩⟩ ∉ t.journal := fun hmem ↦
    (h.tickets _ hmem).false
  have hjournal : (t.settle p progress armed timedOut).journal =
      (t.journal ++ Journal.ofCall progress) ++ .queued ⟨t.radio.arrivals, ⟨none, operation⟩⟩ ::
        Journal.ofEnd (t.settling progress) { p with action := progress.action }
          armed timedOut := by
    rw [settle_append, ending, Journal.ofProgress_eq, hfollowups]
    simp
  rw [hjournal, List.append_cons_inj_of_notMem] at hsplit
  · obtain ⟨rfl, -, rfl⟩ := hsplit
    have hview : (t.journal ++ Journal.ofCall progress).view = t.journal.view := by
      rw [Journal.view_append,
        Journal.foldl_of_silent fun e he ↦ (Journal.silent_ofCall progress e he).1]
    have hqueue : t.radio.queue = ahead := by
      simp only [settle_radio, Controller.resolved, hfollowups, Journal.followups_cons,
        Journal.followups_nil] at hahead
      rw [List.append_cons_inj_of_notMem] at hahead
      · exact hahead.1
      · exact fun hmem ↦ hnew (Journal.queued_of_waiting (h.queue ▸ hmem))
      · exact List.not_mem_nil
    obtain ⟨hnow, hnext⟩ := t.settle_state p progress armed timedOut
    refine ⟨by rw [hnext, htarget]; simp, .inr ?_, fun mode aborted hq ↦ ?_⟩
    · rw [hnow, hnext, htarget, Journal.scans_ofEnd, htarget, Journal.backlog, hview, ← h.queue,
        hqueue]
      simp [settling, hstate]
    · obtain ⟨hmode, haborted⟩ := hdone mode aborted hq
      have hlast : t.journal.view.mode = some mode := (h.mode hstate).symm.trans hmode
      refine ⟨hview ▸ hlast, fun _ ↦ ?_⟩
      rw [settle_view, ScanView.note_resolved, htarget, hstate, ScanView.change,
        RadioState.enters_self, if_pos rfl, hoperation, hnone, Option.none_or]
      split
      next hended =>
        refine ⟨hlast, fun hstop ↦ ?_⟩
        simp [(haborted hstop).2]
      next hended => exact ⟨hlast, fun hstop ↦ (hended (haborted hstop).1).elim⟩
  · rw [List.mem_append, not_or]
    refine ⟨hnew, fun hmem ↦ ?_⟩
    simpa [Entry.isPlain] using (Journal.silent_ofCall progress _ hmem).2
  · intro hmem
    simpa [Entry.isPlain] using Journal.plain_ofEnd _ _ _ _ _ hmem

theorem Scans.mode_of_settle (h : t.Scans) (hpending : t.radio.pending = some p)
    (hcloses : Closes p progress)
    (hscanning : (t.settle p progress armed timedOut).radio.state = .scanning) :
    (t.settle p progress armed timedOut).radio.scanMode =
      (t.settle p progress armed timedOut).journal.view.mode := by
  obtain ⟨hsource, hroute, -⟩ := h.carries p hpending
  rw [(t.settle_state p progress armed timedOut).1] at hscanning
  rw [settle_view, ScanView.note_resolved]
  simp only [settle_radio, Controller.resolved, hscanning, if_true, Controller.scanAfter]
  rcases resolution_cases { p with action := progress.action } timedOut with
    ⟨hdone, htarget⟩ | ⟨hfailed, htarget⟩ | ⟨-, htarget⟩
  · have hdone' : progress.action.status = .done := hdone
    have hdestination : p.destination = .scanning := htarget.symm.trans hscanning
    rw [if_pos hdone', if_pos hdone', ScanView.change_mode, hcloses.operation]
    rcases (RadioState.states_of_accept hroute).2.2.2 hdestination with hstate | hmode
    · rw [h.mode hstate]
    · obtain ⟨mode, hmode⟩ := Option.isSome_iff_exists.mp hmode
      rw [hmode, Option.some_or, Option.some_or]
  · have hnotDone : progress.action.status ≠ .done := by
      rcases hfailed with hstatus | hstatus <;> simp_all
    rw [if_neg hnotDone, if_neg hnotDone, ScanView.change_mode]
    exact h.mode (hsource.symm.trans (htarget.symm.trans hscanning))
  · simp [htarget] at hscanning

theorem Scans.settle (h : t.Scans) (hpending : t.radio.pending = some p)
    (hcloses : Closes p progress) : (t.settle p progress armed timedOut).Scans := by
  have hview := t.settle_view p progress armed timedOut
  refine h.extend _ (t.settle_append p progress armed timedOut) (by simp [Controller.resolved]) ?_
    (mem_ending p progress armed timedOut) (by simp [Controller.resolved]) ?_ ?_ ?_ ?_ ?_ ?_
  · rw [hview, ScanView.note_resolved]
    split <;> simp
  · intro q hq
    rcases hcloses.followups with hnone | ⟨operation, hone, hfollows⟩
    · simp [hnone] at hq
    · rw [hone, Journal.followups_cons, Journal.followups_nil, List.mem_singleton] at hq
      subst hq
      have hpolls := ((h.carries p hpending).of_follows hfollows).2.2.2.2.1
      exact ⟨by simp [Controller.resolved, hone], hpolls⟩
  · exact h.mode_of_settle hpending hcloses
  · simp [Controller.resolved]
  · intro q hmem hclient before during ahead hdue
    exact h.due_of_settle hpending hcloses hclient hdue hmem
  · intro q hq hclient before during hsplit ahead behind hahead
    rcases hcloses.followups with hnone | ⟨operation, hone, hfollows⟩
    · simp [hnone] at hq
    · rw [hone, Journal.followups_cons, Journal.followups_nil, List.mem_singleton] at hq
      subst hq
      exact h.due_of_follows hpending hcloses.operation hone hfollows hsplit hahead
  · intro before e after hk
    have hmem : e ∈ t.ending p progress armed timedOut := by simp [hk]
    by_cases hplain : e.isPlain = true
    · exact Journal.confines_of_isPlain hplain _
    · rw [ending, List.mem_append, Journal.ofProgress_eq, List.mem_append] at hmem
      rcases hmem with (hmem | hmem) | hmem
      · exact (hplain (Journal.silent_ofCall progress e hmem).2).elim
      · obtain ⟨q, -, rfl⟩ := List.mem_map.mp hmem
        trivial
      · exact (hplain (Journal.plain_ofEnd _ _ _ _ e hmem)).elim

end

end Turn

end FmTuner
