import FmTuner.Proofs.Ledgers
import FmTuner.Proofs.Reception
import FmTuner.Proofs.Waiting

/-!
# What a service has on its agenda

Three sorts of things come due: callbacks, polls and the timeout of the transition in flight.
`Service.Fulfils` says what becomes of each of them, and of those who wait, when a service carries
out what a reaction of its receiver asks for.
-/

namespace FmTuner

/-! ## How polls are scheduled -/

namespace Journal

/-- Polls are scheduled after a pause that is always the same, at most one for every transition that
has ended. -/
structure Spaced (after : Nat) (j : Journal) : Prop where
  pauses : ∀ generation ms, .effect (.schedulePoll generation ms) ∈ j → ms = after
  few : j.polls.length ≤ j.endings.length

variable {after : Nat} {j k : Journal}

theorem Spaced.append (hj : j.Spaced after) (hk : k.Spaced after) : Spaced after (j ++ k) := by
  constructor
  · intro generation ms hmem
    rcases List.mem_append.mp hmem with hmem | hmem
    · exact hj.pauses generation ms hmem
    · exact hk.pauses generation ms hmem
  · rw [polls_append, endings_append, List.length_append, List.length_append]
    exact Nat.add_le_add hj.few hk.few

theorem mem_polls {generation ms : Nat} (h : .effect (.schedulePoll generation ms) ∈ j) :
    generation ∈ j.polls :=
  List.mem_filterMap.mpr ⟨_, List.mem_filterMap.mpr ⟨_, h, rfl⟩, rfl⟩

theorem not_mem_of_polls (h : j.polls = []) (generation ms : Nat) :
    .effect (.schedulePoll generation ms) ∉ j := fun hmem ↦ by
  simpa [h] using mem_polls hmem

theorem spaced_of_polls (h : j.polls = []) : j.Spaced after := by
  refine ⟨fun generation ms hmem ↦ absurd hmem (not_mem_of_polls h generation ms), ?_⟩
  rw [h]
  exact Nat.zero_le _

theorem spaced_ofEnd (c : Controller) (p : Pending) (armed timedOut : Bool) :
    (ofEnd c p armed timedOut).Spaced c.timing.pollInterval := by
  constructor
  · intro generation ms hmem
    have hchange := not_mem_of_polls (polls_ofChange c.state (Turn.resolution p timedOut).1)
      generation ms
    have hstart := not_mem_of_polls (polls_ofStart p) generation ms
    have hreadings := not_mem_of_polls (polls_ofReadings p c.attributes) generation ms
    have hreport := not_mem_of_polls (polls_ofReport p.request (Turn.resolution p timedOut).2)
      generation ms
    have hpoll : .effect (.schedulePoll generation ms) ∈
        ofPoll (Turn.resolution p timedOut).1 c.generation c.timing.pollInterval := by
      simpa [ofEnd, hchange, hstart, hreadings, hreport] using hmem
    unfold ofPoll at hpoll
    split at hpoll
    · cases List.mem_singleton.mp hpoll
      rfl
    · cases hpoll
  · rw [polls_ofEnd, endings_ofEnd]
    split <;> simp

end Journal

namespace Turn

variable {accepts : Call → Bool} {e : Option Event} {t u : Turn} {after : Nat}

theorem Taken.spaced {r : Request} (htaken : Taken e t r u) (h : t.journal.Spaced after) :
    u.journal.Spaced after := by
  cases htaken with
  | queued =>
      rw [take_journal]
      exact h.append (Journal.spaced_of_polls rfl)
  | poll => exact h

theorem spaced_launch (h : t.journal.Spaced after) (p : Pending) (notices : List Notification) :
    (t.launch p notices).journal.Spaced after := by
  rw [launch_journal]
  exact h.append (Journal.spaced_of_polls (Journal.polls_notices notices))

theorem spaced_hold (h : t.journal.Spaced after) (p : Pending) (progress : Progress) :
    (t.hold p progress).journal.Spaced after := by
  rw [hold_journal]
  exact h.append (Journal.spaced_of_polls (Journal.polls_ofProgress _ _))

theorem spaced_settle (h : t.journal.Spaced after) (hafter : t.radio.timing.pollInterval = after)
    (p : Pending) (progress : Progress) (armed timedOut : Bool) :
    (t.settle p progress armed timedOut).journal.Spaced after := by
  have hend := Journal.spaced_ofEnd (t.settling progress) { p with action := progress.action } armed
    timedOut
  rw [show (t.settling progress).timing.pollInterval = after from hafter] at hend
  rw [settle_journal]
  exact (h.append (Journal.spaced_of_polls (Journal.polls_ofProgress _ _))).append hend

theorem Move.spaced (hmove : Move accepts e t u) (hafter : t.radio.timing.pollInterval = after)
    (h : t.journal.Spaced after) : u.journal.Spaced after := by
  cases hmove with
  | ready =>
      rw [enter_journal]
      exact (h.append (Journal.spaced_of_polls (Journal.polls_ofChange _ _))).append
        (Journal.spaced_of_polls (Journal.polls_ofPoll _ _ _))
  | arrive r =>
      rw [enqueue_journal]
      exact h.append (Journal.spaced_of_polls rfl)
  | decline htaken =>
      rw [report_journal]
      exact (htaken.spaced h).append (Journal.spaced_of_polls (Journal.polls_ofReport _ _))
  | begin htaken =>
      rw [emit_journal]
      exact (spaced_hold (spaced_launch (htaken.spaced h) _ _) _ _).append
        (Journal.spaced_of_polls rfl)
  | flash htaken =>
      refine spaced_settle (spaced_launch (htaken.spaced h) _ _) ?_ _ _ _ _
      cases htaken <;> exact hafter
  | advance => exact spaced_hold h _ _
  | finish | expire => exact spaced_settle h hafter _ _ _ _

end Turn

theorem Controller.step_spaced {accepts : Call → Bool} {c : Controller} {t : Turn} {event : Event}
    (hsteady : c.Steady) (h : c.step accepts event = .ok t) :
    t.journal.Spaced c.timing.pollInterval := by
  have hempty : Journal.Spaced c.timing.pollInterval [] := Journal.spaced_of_polls rfl
  have hkept := keeps_of_step
    (Q := fun t ↦ t.radio.timing.pollInterval = c.timing.pollInterval ∧
      t.journal.Spaced c.timing.pollInterval)
    (fun _ _ _ ht _ hmove ↦ ⟨hmove.timing ▸ ht.1, hmove.spaced ht.1 ht.2⟩) hsteady ⟨rfl, hempty⟩ h
  exact hkept.2

/-! ## Agendas -/

namespace Appointment

/-- The callback that an appointment delivers, with its time. -/
def arrival? (a : Appointment) : Option (Nat × Callback) :=
  match a.alarm with
  | .answer c => some (a.due, c)
  | .delay => some (a.due, .delayElapsed)
  | .timeout _ | .poll _ => none

/-- The poll that is due at an appointment: the time and the generation. -/
def poll? (a : Appointment) : Option (Nat × Nat) :=
  match a.alarm with
  | .poll generation => some (a.due, generation)
  | _ => none

/-- The time at which a timeout is due. -/
def timeout? (a : Appointment) : Option Nat := if a.alarm.isTimeout then some a.due else none

theorem due_of_arrival? {a : Appointment} {x : Nat × Callback} (h : a.arrival? = some x) :
    x.1 = a.due := by
  obtain ⟨due, alarm⟩ := a
  cases alarm <;> cases h <;> rfl

theorem due_of_timeout? {a : Appointment} {due : Nat} (h : a.timeout? = some due) :
    due = a.due := by
  obtain ⟨time, alarm⟩ := a
  cases alarm <;> cases h
  rfl

theorem event_of_arrival? {a : Appointment} {x : Nat × Callback} (h : a.arrival? = some x) :
    a.alarm.event = .callback x.2 := by
  obtain ⟨due, alarm⟩ := a
  cases alarm <;> cases h <;> rfl

theorem poll_of_none {a : Appointment} (harrival : a.arrival? = none)
    (htimeout : a.timeout? = none) : ∃ generation, a.alarm = .poll generation := by
  obtain ⟨due, alarm⟩ := a
  cases alarm with
  | poll generation => exact ⟨generation, rfl⟩
  | timeout => cases htimeout
  | delay | answer => cases harrival

end Appointment

namespace Agenda

variable {agenda : Agenda}

def Ordered (agenda : Agenda) : Prop := agenda.Pairwise (·.due ≤ ·.due)

theorem perm_add (a : Appointment) (agenda : Agenda) : (agenda.add a).Perm (a :: agenda) := by
  rw [add]
  refine List.perm_middle.trans (List.Perm.cons a ?_)
  rw [List.takeWhile_append_dropWhile]

theorem Ordered.add (h : agenda.Ordered) (a : Appointment) : (agenda.add a).Ordered := by
  induction agenda with
  | nil => exact List.pairwise_singleton _ a
  | cons b rest ih =>
      obtain ⟨hb, hrest⟩ := List.pairwise_cons.mp h
      by_cases hle : b.due ≤ a.due
      · have hadd : Agenda.add a (b :: rest) = b :: Agenda.add a rest := by simp [Agenda.add, hle]
        rw [hadd]
        refine List.pairwise_cons.mpr ⟨fun c hc ↦ ?_, ih hrest⟩
        rcases List.mem_cons.mp ((perm_add a rest).mem_iff.mp hc) with rfl | hc
        · exact hle
        · exact hb c hc
      · have hadd : Agenda.add a (b :: rest) = a :: b :: rest := by simp [Agenda.add, hle]
        rw [hadd]
        refine List.pairwise_cons.mpr ⟨fun c hc ↦ ?_, h⟩
        have hlt := Nat.lt_of_not_le hle
        rcases List.mem_cons.mp hc with rfl | hc
        · exact hlt.le
        · exact hlt.le.trans (hb c hc)

theorem Ordered.disarm (h : agenda.Ordered) : agenda.disarm.Ordered := List.Pairwise.filter _ h

theorem arrivals_disarm (agenda : Agenda) :
    agenda.disarm.filterMap Appointment.arrival? = agenda.filterMap Appointment.arrival? := by
  rw [disarm, List.filterMap_filter]
  refine List.filterMap_congr fun a _ ↦ ?_
  obtain ⟨due, alarm⟩ := a
  cases alarm <;> rfl

theorem polls_disarm (agenda : Agenda) :
    agenda.disarm.filterMap Appointment.poll? = agenda.filterMap Appointment.poll? := by
  rw [disarm, List.filterMap_filter]
  refine List.filterMap_congr fun a _ ↦ ?_
  obtain ⟨due, alarm⟩ := a
  cases alarm <;> rfl

theorem timeouts_disarm (agenda : Agenda) : agenda.disarm.filterMap Appointment.timeout? = [] := by
  rw [disarm, List.filterMap_filter, List.filterMap_eq_nil_iff]
  intro a _
  cases hisTimeout : a.alarm.isTimeout <;> simp [Appointment.timeout?, hisTimeout]

end Agenda

namespace Service

variable {s : Service}

/-- The callbacks that have yet to be heard, each with the time at which it arrives. -/
def arrivals (s : Service) : List (Nat × Callback) :=
  s.inbox.map (s.now, ·) ++ s.agenda.filterMap Appointment.arrival?

/-- The polls to come, each with its time and its generation. -/
def polls (s : Service) : List (Nat × Nat) := s.agenda.filterMap Appointment.poll?

def timeouts (s : Service) : List Nat := s.agenda.filterMap Appointment.timeout?

/-! ## Carrying out a reaction -/

/-- What a service does not change by carrying out effects. -/
structure Keeps (s v : Service) : Prop where
  now : v.now = s.now
  latency : v.latency = s.latency
  receiver : v.receiver = s.receiver
  published : v.published = s.published
  ended : v.ended = s.ended
  ordered : s.agenda.Ordered → v.agenda.Ordered

section

variable {α β : Type} {f : Service → α → Service} (hf : ∀ (s : Service) (a : α), s.Keeps (f s a))

include hf

theorem foldl_keeps (l : List α) (s : Service) : s.Keeps (l.foldl f s) := by
  induction l generalizing s with
  | nil => exact ⟨rfl, rfl, rfl, rfl, rfl, id⟩
  | cons a rest ih =>
      obtain ⟨hnow, hlatency, hreceiver, hpublished, hended, hordered⟩ := hf s a
      obtain ⟨hnow', hlatency', hreceiver', hpublished', hended', hordered'⟩ := ih (f s a)
      exact ⟨hnow'.trans hnow, hlatency'.trans hlatency, hreceiver'.trans hreceiver,
        hpublished'.trans hpublished, hended'.trans hended, hordered' ∘ hordered⟩

theorem foldl_perm {view : Service → List β} {g : Nat → Nat → α → List β}
    (hview : ∀ s a, (view (f s a)).Perm (g s.now s.latency a ++ view s)) (l : List α)
    (s : Service) : (view (l.foldl f s)).Perm (l.flatMap (g s.now s.latency) ++ view s) := by
  induction l generalizing s with
  | nil => exact .refl _
  | cons a rest ih =>
      have hrest := ih (f s a)
      rw [(hf s a).now, (hf s a).latency] at hrest
      rw [List.flatMap_cons, List.append_assoc]
      exact hrest.trans (((hview s a).append_left _).trans (List.perm_append_comm_assoc _ _ _))

end

theorem carry_keeps (s : Service) (c : Callback) : s.Keeps (s.carry c) := by
  rw [carry]
  split
  · exact ⟨rfl, rfl, rfl, rfl, rfl, id⟩
  · exact ⟨rfl, rfl, rfl, rfl, rfl, fun h ↦ h.add _⟩

theorem carry_arrivals (s : Service) (c : Callback) :
    (s.carry c).arrivals.Perm ([(s.now + s.latency, c)] ++ s.arrivals) := by
  rw [carry]
  split
  next hlatency =>
    simp only [arrivals, hlatency, Nat.add_zero, List.map_append, List.map_cons, List.map_nil,
      List.append_assoc, List.singleton_append]
    exact List.perm_middle
  next =>
    have hadd := (Agenda.perm_add ⟨s.now + s.latency, .answer c⟩ s.agenda).filterMap
      Appointment.arrival?
    exact (hadd.append_left _).trans List.perm_middle

theorem carry_polls (s : Service) (c : Callback) : (s.carry c).polls.Perm ([] ++ s.polls) := by
  rw [carry]
  split
  · exact .refl _
  · exact (Agenda.perm_add ⟨s.now + s.latency, .answer c⟩ s.agenda).filterMap Appointment.poll?

theorem carry_timeouts (s : Service) (c : Callback) :
    (s.carry c).timeouts.Perm ([] ++ s.timeouts) := by
  rw [carry]
  split
  · exact .refl _
  · exact (Agenda.perm_add ⟨s.now + s.latency, .answer c⟩ s.agenda).filterMap Appointment.timeout?

end Service

namespace Effect

/-- The callback that an effect brings about, if it is carried out now. -/
def arrivals (now : Nat) : Effect → List (Nat × Callback)
  | .armDelay after => [(now + after, .delayElapsed)]
  | _ => []

/-- The poll that an effect schedules, if it is carried out now. -/
def polls (now : Nat) : Effect → List (Nat × Nat)
  | .schedulePoll generation after => [(now + after, generation)]
  | _ => []

def setsTimeout : Effect → Bool
  | .armTimeout .. | .disarmTimeout => true
  | _ => false

theorem arm_of_not_setsTimeout {e : Effect} (h : e.setsTimeout = false)
    (armed : Option (Nat × Nat)) : e.arm armed = armed := by
  cases e <;> first | rfl | cases h

theorem foldl_arm {effects : List Effect} (h : ∀ e ∈ effects, e.setsTimeout = false)
    (armed : Option (Nat × Nat)) : effects.foldl arm armed = armed := by
  induction effects with
  | nil => rfl
  | cons e rest ih =>
      obtain ⟨he, hrest⟩ := List.forall_mem_cons.mp h
      rw [List.foldl_cons, arm_of_not_setsTimeout he, ih hrest]

end Effect

namespace Journal

theorem flatMap_arrivals (now : Nat) (j : Journal) :
    j.effects.flatMap (Effect.arrivals now) = j.delays.map (now + ·, .delayElapsed) := by
  induction j with
  | nil => rfl
  | cons e rest ih =>
      rw [← List.singleton_append, effects_append, List.flatMap_append, ih, delays_append,
        List.map_append]
      congr 1
      cases e with
      | effect f => cases f <;> rfl
      | _ => rfl

theorem flatMap_polls {pause : Nat} {j : Journal}
    (h : ∀ generation ms, .effect (.schedulePoll generation ms) ∈ j → ms = pause) (now : Nat) :
    j.effects.flatMap (Effect.polls now) = j.polls.map (now + pause, ·) := by
  induction j with
  | nil => rfl
  | cons e rest ih =>
      rw [← List.singleton_append, effects_append, List.flatMap_append,
        ih fun generation ms hmem ↦ h generation ms (List.mem_cons_of_mem e hmem), polls_append,
        List.map_append]
      congr 1
      cases e with
      | effect f =>
          cases f with
          | schedulePoll generation ms =>
              cases h generation ms List.mem_cons_self
              rfl
          | _ => rfl
      | _ => rfl

end Journal

namespace Service

variable {s : Service}

theorem perform_keeps (s : Service) (e : Effect) : s.Keeps (s.perform e) := by
  cases e with
  | notify => exact ⟨rfl, rfl, rfl, rfl, rfl, id⟩
  | complete id outcome =>
      rw [perform]
      split <;> exact ⟨rfl, rfl, rfl, rfl, rfl, fun h ↦ h⟩
  | disarmTimeout => exact ⟨rfl, rfl, rfl, rfl, rfl, fun h ↦ h.disarm⟩
  | armTimeout => exact ⟨rfl, rfl, rfl, rfl, rfl, fun h ↦ h.disarm.add _⟩
  | armDelay | schedulePoll => exact ⟨rfl, rfl, rfl, rfl, rfl, fun h ↦ h.add _⟩

theorem perform_complete_agenda (s : Service) (id : RequestId) (outcome : Outcome) :
    (s.perform (.complete id outcome)).agenda = s.agenda ∧
      (s.perform (.complete id outcome)).inbox = s.inbox := by
  rw [perform]
  split <;> exact ⟨rfl, rfl⟩

theorem perform_arrivals (s : Service) (e : Effect) :
    (s.perform e).arrivals.Perm (e.arrivals s.now ++ s.arrivals) := by
  cases e with
  | notify => exact .refl _
  | complete id outcome =>
      obtain ⟨hagenda, hinbox⟩ := s.perform_complete_agenda id outcome
      rw [arrivals, hagenda, hinbox, (s.perform_keeps _).now]
      exact .refl _
  | disarmTimeout =>
      simp only [arrivals, perform, Agenda.arrivals_disarm]
      exact .refl _
  | armTimeout pending after =>
      have hadd := (Agenda.perm_add ⟨s.now + after, .timeout pending⟩ s.agenda.disarm).filterMap
        Appointment.arrival?
      rw [List.filterMap_cons, Agenda.arrivals_disarm] at hadd
      exact hadd.append_left _
  | armDelay after =>
      have hadd := (Agenda.perm_add ⟨s.now + after, .delay⟩ s.agenda).filterMap
        Appointment.arrival?
      exact (hadd.append_left _).trans List.perm_middle
  | schedulePoll generation after =>
      have hadd := (Agenda.perm_add ⟨s.now + after, .poll generation⟩ s.agenda).filterMap
        Appointment.arrival?
      exact hadd.append_left _

theorem perform_polls (s : Service) (e : Effect) :
    (s.perform e).polls.Perm (e.polls s.now ++ s.polls) := by
  cases e with
  | notify => exact .refl _
  | complete id outcome =>
      rw [polls, (s.perform_complete_agenda id outcome).1]
      exact .refl _
  | disarmTimeout =>
      simp only [polls, perform, Agenda.polls_disarm]
      exact .refl _
  | armTimeout pending after =>
      have hadd := (Agenda.perm_add ⟨s.now + after, .timeout pending⟩ s.agenda.disarm).filterMap
        Appointment.poll?
      rwa [List.filterMap_cons, Agenda.polls_disarm] at hadd
  | armDelay after =>
      exact (Agenda.perm_add ⟨s.now + after, .delay⟩ s.agenda).filterMap Appointment.poll?
  | schedulePoll generation after =>
      exact (Agenda.perm_add ⟨s.now + after, .poll generation⟩ s.agenda).filterMap Appointment.poll?

theorem perform_timeouts (s : Service) {e : Effect} (h : e.setsTimeout = false) :
    (s.perform e).timeouts.Perm s.timeouts := by
  cases e with
  | notify => exact .refl _
  | complete id outcome =>
      rw [timeouts, (s.perform_complete_agenda id outcome).1]
      exact .refl _
  | armDelay after =>
      exact (Agenda.perm_add ⟨s.now + after, .delay⟩ s.agenda).filterMap Appointment.timeout?
  | schedulePoll generation after =>
      exact (Agenda.perm_add ⟨s.now + after, .poll generation⟩ s.agenda).filterMap
        Appointment.timeout?
  | disarmTimeout | armTimeout => cases h

theorem perform_timeouts_set (s : Service) {e : Effect} (h : e.setsTimeout = true)
    (armed : Option (Nat × Nat)) :
    (s.perform e).timeouts.Perm ((e.arm armed).toList.map (s.now + ·.2)) := by
  cases e with
  | disarmTimeout =>
      simp only [timeouts, perform, Agenda.timeouts_disarm]
      exact .refl _
  | armTimeout pending after =>
      have hadd := (Agenda.perm_add ⟨s.now + after, .timeout pending⟩ s.agenda.disarm).filterMap
        Appointment.timeout?
      rwa [List.filterMap_cons, Agenda.timeouts_disarm] at hadd
  | _ => cases h

/-- Either effects leave the timeouts alone, or none but the last that they have armed is left. -/
theorem foldl_perform_timeouts (effects : List Effect) (s : Service) :
    ((∀ e ∈ effects, e.setsTimeout = false) ∧
        (effects.foldl perform s).timeouts.Perm s.timeouts) ∨
      ∀ armed, (effects.foldl perform s).timeouts.Perm
        ((effects.foldl Effect.arm armed).toList.map (s.now + ·.2)) := by
  induction effects generalizing s with
  | nil => exact .inl ⟨List.forall_mem_nil _, .refl _⟩
  | cons e rest ih =>
      have hnow := (s.perform_keeps e).now
      rcases ih (s.perform e) with ⟨hrest, hperm⟩ | hperm
      · cases he : e.setsTimeout with
        | false =>
            exact .inl ⟨List.forall_mem_cons.mpr ⟨he, hrest⟩,
              hperm.trans (s.perform_timeouts he)⟩
        | true =>
            refine .inr fun armed ↦ ?_
            rw [List.foldl_cons, List.foldl_cons, Effect.foldl_arm hrest]
            exact hperm.trans (s.perform_timeouts_set he armed)
      · refine .inr fun armed ↦ ?_
        rw [hnow] at hperm
        exact hperm (e.arm armed)

/-- Those who are reported are taken off those who wait, if they are the first of these. -/
theorem foldl_perform_reports (effects : List Effect) {s : Service} {rest : List RequestId}
    (h : s.waiting = (effects.filterMap Effect.report?).map Prod.fst ++ rest) :
    (effects.foldl perform s).waiting = rest ∧
      (effects.foldl perform s).answered =
        (effects.filterMap Effect.report?).reverse ++ s.answered := by
  induction effects generalizing s with
  | nil => exact ⟨h, rfl⟩
  | cons e effects ih =>
      cases hreport : e.report? with
      | none =>
          obtain ⟨-, hwaiting, hanswered, -⟩ := perform_of_not_report (s := s) hreport
          rw [List.filterMap_cons, hreport] at h ⊢
          rw [← hanswered]
          exact ih (hwaiting.trans h)
      | some report =>
          cases e with
          | complete id outcome =>
              cases hreport
              rw [List.filterMap_cons, Effect.report?] at h ⊢
              have hawaits : s.awaits id = true := by simp [awaits, h]
              have hwaiting : (s.perform (.complete id outcome)).waiting =
                  (effects.filterMap Effect.report?).map Prod.fst ++ rest := by
                simp [perform, hawaits, h]
              obtain ⟨hleft, hanswered⟩ := ih hwaiting
              refine ⟨hleft, hanswered.trans ?_⟩
              simp [perform, hawaits]
          | _ => cases hreport

/-- A service has carried out what a reaction of its receiver asks for, where polls are scheduled
after a pause. -/
structure Fulfils (s : Service) (reaction : Receiver.Reaction) (pause : Nat) (v : Service) :
    Prop where
  now : v.now = s.now
  latency : v.latency = s.latency
  ended : v.ended = s.ended
  receiver : v.receiver = reaction.receiver
  published : v.published = reaction.receiver.radio.snapshot
  arrivals : v.arrivals.Perm
    (reaction.journal.delays.map (s.now + ·, .delayElapsed) ++
      (reaction.answers.map (s.now + s.latency, ·) ++ s.arrivals))
  polls : v.polls.Perm (reaction.journal.polls.map (s.now + pause, ·) ++ s.polls)
  /-- Either the timeouts are left alone, or the one that was armed last is left of them. -/
  timeouts : ((∀ e ∈ reaction.journal.effects, e.setsTimeout = false) ∧
      v.timeouts.Perm s.timeouts) ∨
    ∀ armed, v.timeouts.Perm
      ((reaction.journal.effects.foldl Effect.arm armed).toList.map (s.now + ·.2))
  reports : ∀ rest, s.waiting = reaction.journal.reports.map Prod.fst ++ rest →
    v.waiting = rest ∧ v.answered = reaction.journal.reports.reverse ++ s.answered
  ordered : s.agenda.Ordered → v.agenda.Ordered

theorem fulfils_handle {event : Event} {reaction : Receiver.Reaction} {pause : Nat}
    (hstep : s.receiver.step (fun _ ↦ true) event = .ok reaction)
    (hspaced : reaction.journal.Spaced pause) : s.Fulfils reaction pause (s.handle event) := by
  let u := s.publish reaction
  let w := reaction.answers.foldl carry u
  have hhandle : s.handle event = reaction.journal.effects.foldl perform w := handle_eq hstep
  have hu := foldl_keeps carry_keeps reaction.answers u
  have hw := foldl_keeps perform_keeps reaction.journal.effects w
  have hnow : w.now = s.now := hu.now
  rw [hhandle]
  constructor
  · exact hw.now.trans hu.now
  · exact hw.latency.trans hu.latency
  · exact hw.ended.trans hu.ended
  · exact hw.receiver.trans hu.receiver
  · exact hw.published.trans hu.published
  · have hcarried := foldl_perm carry_keeps (g := fun now latency c ↦ [(now + latency, c)])
      carry_arrivals reaction.answers u
    have hperformed := foldl_perm perform_keeps (g := fun now _ e ↦ e.arrivals now)
      perform_arrivals reaction.journal.effects w
    rw [Journal.flatMap_arrivals, hnow] at hperformed
    rw [← List.map_eq_flatMap] at hcarried
    exact hperformed.trans (hcarried.append_left _)
  · have hcarried : w.polls.Perm u.polls := by
      have hnone := foldl_perm carry_keeps (g := fun _ _ _ ↦ []) carry_polls reaction.answers u
      rwa [List.flatMap_eq_nil_iff.mpr fun _ _ ↦ rfl] at hnone
    have hperformed := foldl_perm perform_keeps (g := fun now _ e ↦ e.polls now)
      perform_polls reaction.journal.effects w
    rw [Journal.flatMap_polls hspaced.pauses, hnow] at hperformed
    exact hperformed.trans (hcarried.append_left _)
  · have hcarried : w.timeouts.Perm u.timeouts := by
      have hnone := foldl_perm carry_keeps (g := fun _ _ _ ↦ []) carry_timeouts reaction.answers u
      rwa [List.flatMap_eq_nil_iff.mpr fun _ _ ↦ rfl] at hnone
    rw [← hnow]
    exact (foldl_perform_timeouts reaction.journal.effects w).imp_left fun h ↦
      ⟨h.1, h.2.trans hcarried⟩
  · intro rest hwaiting
    obtain ⟨-, hkept, hanswered, -⟩ := foldl_carry (s := u) reaction.answers
    obtain ⟨hleft, hreported⟩ :=
      foldl_perform_reports reaction.journal.effects (s := w) (hkept.trans hwaiting)
    refine ⟨hleft, hreported.trans ?_⟩
    rw [show w.answered = s.answered from hanswered]
    rfl
  · exact hw.ordered ∘ hu.ordered

end Service

end FmTuner
