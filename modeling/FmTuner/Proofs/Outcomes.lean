import FmTuner.Proofs.Accounts

/-!
# What outcomes tell

Every report to a client is made at the end of the transition of its request, or as soon as the
request has left the queue and begins none. `Account.Truthful` is what the client may conclude from
the outcome.
-/

namespace FmTuner

/-- Outcomes of requests that begin no transition. -/
def Outcome.isDeclined : Outcome → Bool
  | .ignored | .notHandled => true
  | _ => false

/-- What an outcome says about the transition that it is reported for, which has left the
controller `d`. -/
def Account.Truthful (x : Account) (d : Controller) : Outcome → Prop
  | .done =>
      d.state = x.destination ∧ ∃ rounds : List Round,
        x.plan.action.commands = rounds.map Round.command ∧
        (∀ r ∈ rounds, r.Confirmed x.start.attributes.band) ∧
        x.during.exchanges = Exchange.ofRounds rounds
  | .cancelled | .failed =>
      x.during.changes = [] ∧ d.state = x.start.state ∧ d.scanMode = x.start.scanMode ∧
        d.attributes = x.start.attributes
  | .error | .timedOut => x.during.changes = [(x.start.state, .error)] ∧ d.state = .error
  | .ignored | .notHandled => False

namespace Turn

theorem resolution_isDeclined (p : Pending) (timedOut : Bool) :
    (resolution p timedOut).2.isDeclined = false := by
  unfold resolution
  split <;> first | rfl | (split <;> rfl)

end Turn

namespace Account

variable {x : Account} {p : Pending} {timedOut : Bool} {d : Controller}

theorem Valid.start_ne_error (h : x.Valid) : x.start.state ≠ .error := by
  intro herror
  have hroute := h.route
  rw [herror] at hroute
  simp [FmTuner.route] at hroute

/-- A transition that ends with an outcome leaves the radio as the outcome says. -/
theorem Closed.truthful (h : x.Closed p timedOut d) (hvalid : x.Valid) :
    x.Truthful d (Turn.resolution p timedOut).2 := by
  have hstate := h.state
  have hsource : p.source = x.start.state := by
    rw [h.same]
    rfl
  have hdestination : p.destination = x.destination := by
    rw [h.same]
    rfl
  have hstays : ∀ outcome, outcome = Outcome.cancelled ∨ outcome = .failed →
      p.action.status ≠ .done → (Turn.resolution p timedOut).1 = p.source →
        x.Truthful d outcome := by
    intro outcome houtcome hundone htarget
    have hsame : d.state = x.start.state := by rw [hstate, htarget, hsource]
    have hchanges := h.changes
    rw [if_pos hsame] at hchanges
    have hscan := h.stays hundone hsame
    have hattributes := h.undone hundone
    rcases houtcome with rfl | rfl <;> exact ⟨hchanges, hsame, hscan, hattributes⟩
  have herror : ∀ outcome, outcome = Outcome.error ∨ outcome = .timedOut →
      (Turn.resolution p timedOut).1 = .error → x.Truthful d outcome := by
    intro outcome houtcome htarget
    have hfailed : d.state = .error := hstate.trans htarget
    have hchanges := h.changes
    rw [hfailed, if_neg (Ne.symm hvalid.start_ne_error)] at hchanges
    rcases houtcome with rfl | rfl <;> exact ⟨hchanges, hfailed⟩
  unfold Turn.resolution at hstate hstays herror ⊢
  cases hstatus : p.action.status with
  | done =>
      obtain ⟨rounds, hcompleted⟩ := h.done hstatus
      simp only [hstatus] at hstate
      exact ⟨hstate.trans hdestination, rounds, hcompleted.commands, hcompleted.confirmed,
        hcompleted.exchanges⟩
  | cancel => exact hstays _ (.inl rfl) (by simp [hstatus]) (by simp [hstatus])
  | fail => exact hstays _ (.inr rfl) (by simp [hstatus]) (by simp [hstatus])
  | _ =>
      refine herror _ ?_ (by simp [hstatus])
      cases timedOut <;> simp

/-- The outcome tells of a timeout exactly if there was one. -/
theorem Closed.timedOut_iff (h : x.Closed p timedOut d) :
    (Turn.resolution p timedOut).2 = .timedOut ↔ timedOut = true := by
  constructor
  · intro houtcome
    unfold Turn.resolution at houtcome
    split at houtcome <;> simp_all
  · intro htimedOut
    simp [Turn.resolution, h.late htimedOut, htimedOut]

end Account

namespace Journal

/-- What a report and the end of a transition say during the step for an event. -/
def Attests (event : Event) (earlier : Journal) : Entry → Prop
  | .resolved p timedOut _ => timedOut = true ↔ event = .timeout p.id
  | .effect (.complete id outcome) =>
      outcome.isDeclined = true ∨ ∃ front p timedOut d,
        earlier = front ++ [.resolved p timedOut d] ∧ p.request = some id ∧
          outcome = (Turn.resolution p timedOut).2
  | _ => True

variable {event : Event} {j k : Journal}

theorem attests_of_not_milestone {e : Entry} (h : e.isMilestone = false) (earlier : Journal) :
    Attests event earlier e := by
  cases e with
  | resolved => simp [Entry.isMilestone] at h
  | effect f => cases f <;> trivial
  | _ => trivial

theorem attests_append (hj : j.Each (Attests event)) (hk : ∀ e ∈ k, e.isMilestone = false) :
    (j ++ k).Each (Attests event) :=
  each_append_of_forall hj fun e he ↦ attests_of_not_milestone (hk e he)

end Journal

namespace Turn

variable {accepts : Call → Bool} {e : Option Event} {event : Event} {t u : Turn} {p : Pending}
  {progress : Progress}

theorem attests_settle (h : t.journal.Each (Journal.Attests event)) {timedOut : Bool}
    (hlate : timedOut = true ↔ event = .timeout p.id) (armed : Bool) :
    (t.settle p progress armed timedOut).journal.Each (Journal.Attests event) := by
  rw [settle_journal, Journal.ofEnd_eq, ← List.append_assoc, List.append_cons]
  refine Journal.each_report (Journal.each_snoc ?_ hlate) fun id hid ↦
    .inr ⟨_, _, _, _, rfl, hid, rfl⟩
  refine Journal.attests_append (Journal.attests_append h ?_) fun e he ↦ ?_
  · exact Journal.not_milestone_ofProgress _ _
  · exact (Journal.quiet_ofFinish _ _ _ _ e he).2

theorem Taken.attests {r : Request} (htaken : Taken e t r u)
    (h : t.journal.Each (Journal.Attests event)) : u.journal.Each (Journal.Attests event) := by
  cases htaken with
  | queued => exact Journal.each_snoc h trivial
  | poll => exact h

theorem attests_launch (h : t.journal.Each (Journal.Attests event)) (p : Pending)
    (notices : List Notification) :
    (t.launch p notices).journal.Each (Journal.Attests event) := by
  rw [launch_journal, List.append_cons]
  exact Journal.attests_append (Journal.each_snoc h trivial) (by simp [Entry.isMilestone])

theorem attests_hold (h : t.journal.Each (Journal.Attests event)) (p : Pending)
    (progress : Progress) : (t.hold p progress).journal.Each (Journal.Attests event) := by
  rw [hold_journal]
  exact Journal.attests_append h (Journal.not_milestone_ofProgress _ _)

/-- A timeout ends the transition that it is for, and no other ends in a timeout in its step. -/
theorem Move.attests (hmove : Move accepts e t u) (hcause : ∀ other, e = some other → other = event)
    (hfailed : e = none → ∀ id, event = .timeout id → t.radio.state = .error)
    (h : t.journal.Each (Journal.Attests event)) : u.journal.Each (Journal.Attests event) := by
  cases hmove with
  | ready =>
      rw [enter_journal, List.append_assoc]
      exact Journal.attests_append h (Journal.not_milestone_enter _ _ _ _)
  | arrive r => exact Journal.attests_append h (by simp [Entry.isMilestone])
  | @decline _ _ v r outcome htaken hdecline =>
      rw [report_journal]
      refine Journal.each_report (htaken.attests h) fun _ _ ↦ .inl ?_
      cases hdecline <;> rfl
  | begin htaken =>
      rw [emit_journal]
      exact Journal.attests_append (attests_hold (attests_launch (htaken.attests h) _ _) _ _)
        (by simp [Entry.isMilestone])
  | flash htaken hroute =>
      -- What ends at once does not run out of time, and after a timeout nothing begins.
      refine attests_settle (attests_launch (htaken.attests h) _ _) ⟨by simp, fun htimeout ↦ ?_⟩ _
      cases htaken with
      | queued => simp [hfailed rfl _ htimeout, route] at hroute
      | poll => simp [← hcause _ rfl] at htimeout
  | advance => exact attests_hold h _ _
  | finish =>
      refine attests_settle h ⟨by simp, fun htimeout ↦ ?_⟩ _
      simp [← hcause _ rfl] at htimeout
  | expire => exact attests_settle h ⟨fun _ ↦ (hcause _ rfl).symm, fun _ ↦ rfl⟩ _

end Turn

/-! ## Requests that begin nothing -/

/-- Whether an entry reports that a request begins no transition. -/
def Entry.isDecline : Entry → Bool
  | .effect (.complete _ outcome) => outcome.isDeclined
  | _ => false

namespace Journal

theorem of_ofReport_split {client : Option RequestId} {outcome outcome' : Outcome}
    {front later : Journal} {id : RequestId}
    (h : ofReport client outcome = front ++ .effect (.complete id outcome') :: later) :
    client = some id ∧ outcome' = outcome ∧ front = [] ∧ later = [] := by
  cases client with
  | none => simp [ofReport] at h
  | some client =>
      cases front with
      | nil =>
          cases h
          exact ⟨rfl, rfl, rfl, rfl⟩
      | cons => simp [ofReport] at h

theorem not_decline_of_not_milestone {e : Entry} (h : e.isMilestone = false) :
    e.isDecline = false := by
  cases e with
  | effect f => cases f <;> first | rfl | simp [Entry.isMilestone] at h
  | _ => rfl

theorem not_decline_ofProgress (first : Nat) (p : Progress) :
    ∀ e ∈ ofProgress first p, e.isDecline = false :=
  fun e he ↦ not_decline_of_not_milestone (not_milestone_ofProgress first p e he)

theorem not_decline_ofEnd (c : Controller) (p : Pending) (armed timedOut : Bool) :
    ∀ e ∈ ofEnd c p armed timedOut, e.isDecline = false := by
  rw [ofEnd_eq, List.forall_mem_append, List.forall_mem_cons]
  refine ⟨fun e he ↦ not_decline_of_not_milestone (quiet_ofFinish _ _ _ _ e he).2, rfl, ?_⟩
  cases p.request with
  | none => simp [ofReport]
  | some id => simpa [ofReport, Entry.isDecline] using Turn.resolution_isDeclined p timedOut

end Journal

namespace Turn

variable {accepts : Call → Bool} {e : Option Event} {event : Event} {t u : Turn}

/-- No request is declined between two turns. -/
def Spares (t u : Turn) : Prop :=
  ∃ k, u.journal = t.journal ++ k ∧ ∀ e ∈ k, e.isDecline = false

theorem Spares.trans {v : Turn} (h : t.Spares u) (h' : u.Spares v) : t.Spares v := by
  obtain ⟨j, hj, hspares⟩ := h
  obtain ⟨k, hk, hspares'⟩ := h'
  refine ⟨j ++ k, by rw [hk, hj, List.append_assoc], ?_⟩
  rw [List.forall_mem_append]
  exact ⟨hspares, hspares'⟩

theorem spares_launch (t : Turn) (p : Pending) (notices : List Notification) :
    t.Spares (t.launch p notices) := by
  refine ⟨_, launch_journal .., ?_⟩
  rw [List.forall_mem_cons]
  exact ⟨rfl, by simp [Entry.isDecline]⟩

theorem spares_hold (t : Turn) (p : Pending) (progress : Progress) :
    t.Spares (t.hold p progress) :=
  ⟨_, hold_journal .., Journal.not_decline_ofProgress _ _⟩

theorem spares_settle (t : Turn) (p : Pending) (progress : Progress) (armed timedOut : Bool) :
    t.Spares (t.settle p progress armed timedOut) := by
  refine ⟨_, (settle_journal ..).trans (List.append_assoc ..), ?_⟩
  rw [List.forall_mem_append]
  exact ⟨Journal.not_decline_ofProgress _ _, Journal.not_decline_ofEnd _ _ _ _⟩

theorem spares_armTimeout (t : Turn) (pending after : Nat) :
    t.Spares (t.emit (.armTimeout pending after)) :=
  ⟨_, emit_journal .., by simp [Entry.isDecline]⟩

/-- A move declines the request that it takes, or none. -/
theorem Move.decline_cases (hmove : Move accepts e t u) :
    (∃ r v outcome, Taken e t r v ∧ v.radio.Declines r.operation outcome ∧
      u = v.report r.id outcome) ∨
    (∃ r v, Taken e t r v ∧ v.Spares u) ∨ e ≠ none ∧ t.Spares u := by
  cases hmove with
  | ready =>
      refine .inr (.inr ⟨by simp, _, (enter_journal ..).trans (List.append_assoc ..), ?_⟩)
      intro e he
      exact Journal.not_decline_of_not_milestone (Journal.not_milestone_enter _ _ _ _ e he)
  | arrive r => exact .inr (.inr ⟨by simp, _, rfl, by simp [Entry.isDecline]⟩)
  | decline htaken hdecline => exact .inl ⟨_, _, _, htaken, hdecline, rfl⟩
  | begin htaken =>
      exact .inr (.inl ⟨_, _, htaken,
        ((spares_launch ..).trans (spares_hold ..)).trans (spares_armTimeout ..)⟩)
  | flash htaken =>
      exact .inr (.inl ⟨_, _, htaken, (spares_launch ..).trans (spares_settle ..)⟩)
  | advance => exact .inr (.inr ⟨by simp, spares_hold ..⟩)
  | finish | expire => exact .inr (.inr ⟨by simp, spares_settle ..⟩)

/-- Whoever is declined has just left the queue, and the controller is as it was: it turns to the
next request, or has come to rest. -/
def Untouched (t : Turn) : Prop :=
  ∀ (now : Journal) id outcome later,
    t.journal = now ++ .effect (.complete id outcome) :: later → outcome.isDeclined = true →
      ∃ r c, r.id = some id ∧ now.Dispatches r c ∧ c.Declines r.operation outcome ∧
        (later = [] ∧ t.radio = c ∨ ∃ q passed rest, later = .dispatched q passed c :: rest)

theorem untouched_of_not_decline (h : ∀ e ∈ t.journal, e.isDecline = false) : t.Untouched := by
  intro now id outcome later hsplit hdeclined
  have hnot := h (.effect (.complete id outcome)) (by simp [hsplit])
  simp [Entry.isDecline, hdeclined] at hnot

/-- The next request is dispatched by an untouched controller. -/
theorem Untouched.of_next (h : t.Untouched) {q : Queued} {passed : List Queued} {k : Journal}
    (hjournal : u.journal = t.journal ++ .dispatched q passed t.radio :: k)
    (hk : ∀ (front : Journal) id outcome later,
      k = front ++ .effect (.complete id outcome) :: later → outcome.isDeclined = true →
        ∃ r c, r.id = some id ∧
          Journal.Dispatches (t.journal ++ .dispatched q passed t.radio :: front) r c ∧
            c.Declines r.operation outcome ∧ later = [] ∧ u.radio = c) : u.Untouched := by
  intro now id outcome later hsplit hdeclined
  rw [hjournal] at hsplit
  -- The report is behind the dispatch, or was already there when it came.
  rcases List.append_eq_append_iff.mp hsplit with ⟨front, rfl, hfront⟩ | ⟨rest, hnow, hrest⟩
  · cases front with
    | nil => simp at hfront
    | cons first front =>
        obtain ⟨rfl, hlater⟩ := List.cons.inj hfront
        obtain ⟨r, c, hid, hdispatches, hdeclines, hend⟩ :=
          hk front id outcome later hlater hdeclined
        exact ⟨r, c, hid, hdispatches, hdeclines, .inl hend⟩
  · cases rest with
    | nil => simp at hrest
    | cons first rest =>
        obtain ⟨rfl, rfl⟩ := List.cons.inj hrest
        obtain ⟨r, c, hid, hdispatches, hdeclines, hnext⟩ := h now id outcome rest hnow hdeclined
        refine ⟨r, c, hid, hdispatches, hdeclines, .inr ?_⟩
        rcases hnext with ⟨rfl, rfl⟩ | ⟨q', passed', rest', rfl⟩
        · exact ⟨q, passed, k, rfl⟩
        · exact ⟨q', passed', _, rfl⟩

/-- Emptying the queue declines requests one by one, each as soon as it is dispatched. -/
theorem Move.untouched (hmove : Move accepts none t u) (h : t.Untouched) : u.Untouched := by
  rcases hmove.decline_cases with ⟨r, v, outcome, htaken, hdeclines, rfl⟩ |
    ⟨r, v, htaken, k, hjournal, hk⟩ | ⟨hne, -⟩
  · have hdispatches := htaken.dispatches
    cases htaken with
    | @queued _ q passed rest =>
        have hjournal : ((t.take q passed rest).report q.request.id outcome).journal =
            t.journal ++ .dispatched q passed t.radio ::
              Journal.ofReport q.request.id outcome := by
          rw [report_journal, take_journal, List.append_assoc]
          rfl
        refine h.of_next hjournal fun front id outcome' later hsplit hdeclined ↦ ?_
        obtain ⟨hid, rfl, rfl, rfl⟩ := Journal.of_ofReport_split hsplit
        exact ⟨q.request, _, hid, hdispatches (by simp [hid]), hdeclines, rfl, report_radio ..⟩
  · cases htaken with
    | @queued _ q passed rest =>
        rw [take_journal, List.append_assoc, List.singleton_append] at hjournal
        refine h.of_next hjournal fun front id outcome later hsplit hdeclined ↦ ?_
        have hnot := hk (.effect (.complete id outcome)) (by simp [hsplit])
        simp [Entry.isDecline, hdeclined] at hnot
  · exact absurd rfl hne

/-- What an event does first declines nothing. -/
theorem Move.untouched_of_event (hmove : Move accepts (some event) t u) (ht : t.journal = []) :
    u.Untouched := by
  refine untouched_of_not_decline ?_
  rcases hmove.decline_cases with ⟨r, v, outcome, htaken, -, rfl⟩ |
    ⟨r, v, htaken, k, hjournal, hk⟩ | ⟨-, k, hjournal, hk⟩
  · cases htaken with
    | poll => simp [Journal.ofReport, ht]
  · cases htaken with
    | poll =>
        rw [hjournal, ht]
        exact hk
  · rw [hjournal, ht]
    exact hk

/-- What a turn keeps about its reports during the step for an event. -/
structure Attested (event : Event) (t : Turn) : Prop where
  attests : t.journal.Each (Journal.Attests event)
  untouched : t.Untouched
  /-- After a timeout nothing begins. -/
  failed : ∀ id, event = .timeout id → t.Failed

theorem Move.attested (hmove : Move accepts none t u) (h : t.Attested event) :
    u.Attested event where
  attests := hmove.attests (by simp) (fun _ id hid ↦ (h.failed id hid).state) h.attests
  untouched := hmove.untouched h.untouched
  failed := fun id hid ↦ hmove.failed (h.failed id hid)

theorem Move.attested_of_event (hmove : Move accepts (some event) t u) (ht : t.journal = []) :
    u.Attested event where
  attests := by
    refine hmove.attests (by simp) (by simp) ?_
    intro before e after hsplit
    simp [ht] at hsplit
  untouched := hmove.untouched_of_event ht
  failed := by
    rintro id rfl
    exact failed_of_timeout (by simp [ht]) hmove

/-- Nothing goes on by itself in a controller at rest. -/
theorem eq_of_rested (hrested : t.radio.Rested)
    (h : Relation.ReflTransGen (Move accepts none) t u) : u = t := by
  rcases Relation.ReflTransGen.cases_head h with heq | ⟨v, hmove, -⟩
  · exact heq.symm
  · obtain ⟨q, passed, rest, hpending, hqueue, -, hq, -⟩ := hmove.queue_of_taken
    have hdefers := hrested hpending q (by simp [hqueue])
    simp [hq] at hdefers

end Turn

namespace Controller

variable {timing : Timing} {script : List (Event × (Call → Bool))} {t u : Turn}
  {accepts : Call → Bool} {event : Event}

theorem step_attests {c : Controller} (hsteady : c.Steady) (hrested : c.Rested)
    (h : c.step accepts event = .ok u) :
    u.journal.Each (Journal.Attests event) ∧ u.Untouched := by
  have hnothing : ∀ v : Turn, v.journal = [] →
      v.journal.Each (Journal.Attests event) ∧ v.Untouched := fun v hv ↦
    ⟨fun before e after hsplit ↦ by simp [hv] at hsplit,
      Turn.untouched_of_not_decline (by simp [hv])⟩
  rcases step_moves hsteady h with ⟨-, -, rfl⟩ | ⟨v, ⟨-, rfl⟩ | hmove, hmoves, -⟩
  · exact hnothing _ rfl
  · -- An event that is ignored leaves the queue at rest.
    cases Turn.eq_of_rested hrested hmoves
    exact hnothing _ rfl
  · have hend := Turn.keeps_of_moves (Q := Turn.Attested event)
      (fun _ _ ht hmove ↦ hmove.attested ht) hmoves (hmove.attested_of_event rfl)
    exact ⟨hend.attests, hend.untouched⟩

/-- Every outcome that is reported is true. A request that was declined had just left the queue,
and neither the controller nor the surroundings notice it: what comes next is the next request,
dispatched by the same controller, or the step is over. Any other outcome is reported at the very
end of the transition of its request, and says how it has ended; it is a timeout exactly if the
event was the timeout of that transition. -/
theorem reported_outcomes_are_truthful (h : (initial timing).run script = .ok t)
    (hstep : t.radio.step accepts event = .ok u) {now later : Journal} {id : RequestId}
    {outcome : Outcome} (hreport : u.journal = now ++ .effect (.complete id outcome) :: later) :
    (outcome = .ignored ∨ outcome = .notHandled →
      ∃ r c, r.id = some id ∧ now.Dispatches r c ∧ c.Declines r.operation outcome ∧
        (later = [] ∧ u.radio = c ∨ ∃ q passed rest, later = .dispatched q passed c :: rest)) ∧
    (outcome ≠ .ignored ∧ outcome ≠ .notHandled →
      ∃ (x : Account) (before front : Journal) (p : Pending) (timedOut : Bool) (d : Controller),
        now = front ++ [.resolved p timedOut d] ∧ t.journal ++ front = before ++ x.entries ∧
        x.request.id = some id ∧ before.Dispatches x.request x.start ∧ x.Valid ∧
        p = { x.pending with action := p.action } ∧ x.Truthful d outcome ∧
        (outcome = .timedOut ↔ event = .timeout x.pending.id)) := by
  obtain ⟨-, hsteady, hrested⟩ := run_paced h
  obtain ⟨hattests, huntouched⟩ := step_attests hsteady hrested hstep
  constructor
  · intro hdeclined
    refine huntouched now id outcome later hreport ?_
    rcases hdeclined with rfl | rfl <;> rfl
  · rintro ⟨hignored, hnotHandled⟩
    rcases hattests now _ later hreport with hdeclined |
      ⟨front, p, timedOut, d, hnow, hid, houtcome⟩
    · cases outcome <;> simp_all [Outcome.isDeclined]
    · have hresolved := hattests front (.resolved p timedOut d)
        (.effect (.complete id outcome) :: later) (by simp [hreport, hnow])
      have haccounts := (run_accounts (run_snoc h hstep)).accounted
      obtain ⟨x, before, hentries, hvalid, hdispatched, hclosed⟩ := haccounts (t.journal ++ front)
        (.resolved p timedOut d) (.effect (.complete id outcome) :: later)
        (by simp [hreport, hnow])
      have hrequest : x.request.id = some id := by
        rw [← hid, hclosed.same]
        rfl
      refine ⟨x, before, front, p, timedOut, d, hnow, hentries, hrequest,
        hdispatched (by simp [hrequest]), hvalid, hclosed.same, ?_, ?_⟩
      · rw [houtcome]
        exact hclosed.truthful hvalid
      · have hpending : p.id = x.pending.id := by
          rw [hclosed.same]
        rw [houtcome, hclosed.timedOut_iff, ← hpending]
        exact hresolved

/-- A start that runs out of time is reported as such, and a pause that has waited for it is
refused. -/
theorem start_timed_out_and_pause_refused :
    ∃ t u, (initial {}).run ([.ready, .request ⟨some 1, .start .europeUs⟩,
        .request ⟨some 2, .pause⟩].map fun event ↦ (event, fun _ ↦ true)) = .ok t ∧
      t.radio.step (fun _ ↦ true) (.timeout 1) = .ok u ∧
      u.journal.reports = [(1, .timedOut), (2, .notHandled)] ∧
      (∃ (x : Account) (d : Controller), x.request.id = some 1 ∧ x.Valid ∧
        x.Truthful d .timedOut) ∧
      ∃ (r : Request) (c : Controller), r.id = some 2 ∧
        c.Declines r.operation .notHandled := by
  obtain ⟨t, u, ht, hu, hreports, htimedOut, hrefused⟩ :
      ∃ t u, (initial {}).run ([.ready, .request ⟨some 1, .start .europeUs⟩,
          .request ⟨some 2, .pause⟩].map fun event ↦ (event, fun _ ↦ true)) = .ok t ∧
        t.radio.step (fun _ ↦ true) (.timeout 1) = .ok u ∧
        u.journal.reports = [(1, .timedOut), (2, .notHandled)] ∧
        Entry.effect (.complete 1 .timedOut) ∈ u.journal ∧
        Entry.effect (.complete 2 .notHandled) ∈ u.journal :=
    ⟨_, _, rfl, rfl, by decide, by decide, by decide⟩
  refine ⟨t, u, ht, hu, hreports, ?_, ?_⟩
  · obtain ⟨now, later, hsplit⟩ := List.append_of_mem htimedOut
    obtain ⟨x, before, front, p, timedOut, d, -, -, hid, -, hvalid, -, htruthful, -⟩ :=
      (reported_outcomes_are_truthful ht hu hsplit).2 (by simp)
    exact ⟨x, d, hid, hvalid, htruthful⟩
  · obtain ⟨now, later, hsplit⟩ := List.append_of_mem hrefused
    obtain ⟨r, c, hid, -, hdeclines, -⟩ :=
      (reported_outcomes_are_truthful ht hu hsplit).1 (by simp)
    exact ⟨r, c, hid, hdeclines⟩

end Controller

end FmTuner
