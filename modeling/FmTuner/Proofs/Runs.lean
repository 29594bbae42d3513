import FmTuner.Proofs.Ranges
import FmTuner.Proofs.Rounds

/-!
# Runs of a service

A service takes requests in whenever they come, takes what is due, and lets time pass while nothing
is. `Service.Wired` says what holds between two events on every run: the callbacks that are on their
way are those of the circuit that its receiver makes up, and nothing is overdue.
-/

namespace FmTuner

/-- The journals of the steps of a service, each with the time at which the step was made. -/
abbrev Trace := List (Nat × Journal)

namespace Service

/-- A service takes an event up, which leaves it as it is before it handles the event. Requests may
come at any time. -/
inductive Takes (s : Service) : Event → Service → Prop where
  | request (r : Request) (awaited : Bool) :
      Takes s (.request r) (s.expecting (.request r) awaited)
  | due {limit : Nat} {event : Event} {u : Service} (h : s.next? limit = some (event, u)) :
      Takes s event u

/-- What becomes of a service, step by step. A step that faults ends the service, and with it the
run. -/
inductive Runs : Service → Trace → Service → Prop where
  | refl (s : Service) : Runs s [] s
  | handle {s u v : Service} {event : Event} {reaction : Receiver.Reaction} {trace : Trace}
      (htakes : s.Takes event u) (hstep : u.receiver.step (fun _ ↦ true) event = .ok reaction)
      (hruns : Runs (u.handle event) trace v) : Runs s ((u.now, reaction.journal) :: trace) v
  /-- Time passes up to a time until which nothing is due. -/
  | elapse {s v : Service} {later : Nat} {trace : Trace} (hlater : s.now ≤ later)
      (hnone : s.next? later = none) (hruns : Runs { s with now := later } trace v) :
      Runs s trace v

variable {timing : Timing} {settings : ChipSettings} {s u v : Service} {event : Event}
  {reaction : Receiver.Reaction} {trace : Trace}

/-! ## Taking an event up -/

/-- What comes due is an answer that has arrived, or else the first appointment. -/
theorem next?_cases {limit : Nat} (h : s.next? limit = some (event, u)) :
    (∃ answer rest, s.inbox = answer :: rest ∧ event = .callback answer ∧
      u = { s with inbox := rest }) ∨
    ∃ a rest, s.inbox = [] ∧ s.agenda = a :: rest ∧ a.due ≤ limit ∧ event = a.alarm.event ∧
      u = s.afterFirst a rest := by
  unfold next? at h
  split at h
  next answer rest hinbox =>
    cases h
    exact .inl ⟨answer, rest, hinbox, rfl, rfl⟩
  next a rest hinbox hagenda =>
    split at h
    next hdue =>
      cases h
      exact .inr ⟨a, rest, hinbox, hagenda, hdue, rfl, rfl⟩
    next => cases h
  next => cases h

/-- While nothing is due no answer has arrived, and every appointment is later. -/
theorem next?_eq_none {limit : Nat} (h : s.next? limit = none) (hordered : s.agenda.Ordered) :
    s.inbox = [] ∧ ∀ a ∈ s.agenda, limit < a.due := by
  unfold next? at h
  split at h
  next => cases h
  next a rest hinbox hagenda =>
    split at h
    next => cases h
    next hdue =>
      refine ⟨hinbox, fun b hb ↦ ?_⟩
      rw [hagenda] at hb hordered
      have hle : a.due ≤ b.due := by
        rcases List.mem_cons.mp hb with rfl | hb
        · exact le_rfl
        · exact (List.pairwise_cons.mp hordered).1 b hb
      omega
  next hinbox hagenda =>
    refine ⟨hinbox, ?_⟩
    rw [hagenda]
    exact List.forall_mem_nil _

/-- What taking an event up does not change. -/
structure Holds (s u : Service) : Prop where
  latency : u.latency = s.latency
  receiver : u.receiver = s.receiver
  published : u.published = s.published
  bulletins : u.bulletins = s.bulletins
  now : s.now ≤ u.now

theorem Takes.holds (h : s.Takes event u) : s.Holds u := by
  cases h with
  | request => exact ⟨rfl, rfl, rfl, rfl, le_rfl⟩
  | due hnext =>
      rcases next?_cases hnext with ⟨_, _, _, _, rfl⟩ | ⟨_, _, _, _, _, _, rfl⟩
      · exact ⟨rfl, rfl, rfl, rfl, le_rfl⟩
      · exact ⟨rfl, rfl, rfl, rfl, le_max_left _ _⟩

/-- Nothing on the agenda is overdue. -/
def Timely (s : Service) : Prop := ∀ a ∈ s.agenda, s.now ≤ a.due

theorem Takes.agenda (h : s.Takes event u) (hordered : s.agenda.Ordered) (htimely : s.Timely) :
    u.agenda.Ordered ∧ u.Timely := by
  cases h with
  | request => exact ⟨hordered, htimely⟩
  | due hnext =>
      rcases next?_cases hnext with ⟨_, _, _, _, rfl⟩ | ⟨a, rest, -, hagenda, -, -, rfl⟩
      · exact ⟨hordered, htimely⟩
      · rw [hagenda] at hordered
        obtain ⟨hfirst, hrest⟩ := List.pairwise_cons.mp hordered
        refine ⟨hrest, fun b hb ↦ max_le (htimely b ?_) (hfirst b hb)⟩
        rw [hagenda]
        exact List.mem_cons_of_mem a hb

/-- A callback is the first to arrive, and arrives now. No other event changes what arrives. -/
theorem Takes.arrivals (h : s.Takes event u) (htimely : s.Timely) :
    (∃ answer, event = .callback answer ∧ s.arrivals = (u.now, answer) :: u.arrivals) ∨
      (∀ answer, event ≠ .callback answer) ∧ u.arrivals = s.arrivals := by
  cases h with
  | request r awaited => exact .inr ⟨by simp, rfl⟩
  | due hnext =>
      rcases next?_cases hnext with ⟨answer, rest, hinbox, rfl, rfl⟩ |
        ⟨a, rest, hinbox, hagenda, -, rfl, rfl⟩
      · refine .inl ⟨answer, rfl, ?_⟩
        rw [Service.arrivals, hinbox]
        rfl
      · have hdue : s.now ≤ a.due := htimely a (hagenda ▸ List.mem_cons_self)
        have hfirst := arrivals_first hinbox hagenda
        obtain ⟨due, alarm⟩ := a
        have hnow : (s.afterFirst ⟨due, alarm⟩ rest).now = due := max_eq_right hdue
        cases alarm with
        | delay => exact .inl ⟨.delayElapsed, rfl, by rw [hnow, hfirst]; rfl⟩
        | answer c => exact .inl ⟨c, rfl, by rw [hnow, hfirst]; rfl⟩
        | timeout | poll => exact .inr ⟨by simp [Alarm.event], hfirst.symm⟩

/-! ## Handling an event -/

theorem Timely.add (h : s.Timely) (after : Nat) (alarm : Alarm) :
    ∀ a ∈ s.agenda.add ⟨s.now + after, alarm⟩, s.now ≤ a.due := by
  intro a ha
  rcases List.mem_cons.mp ((Agenda.perm_add _ _).mem_iff.mp ha) with rfl | ha
  · exact Nat.le_add_right _ _
  · exact h a ha

theorem Timely.carry (h : s.Timely) (answer : Callback) : (s.carry answer).Timely := by
  rw [Service.carry]
  split
  · exact h
  · exact h.add _ _

theorem Timely.perform (h : s.Timely) (e : Effect) : (s.perform e).Timely := by
  have hdisarm : ∀ a ∈ s.agenda.disarm, s.now ≤ a.due := fun a ha ↦ h a (List.mem_of_mem_filter ha)
  cases e with
  | notify => exact h
  | complete id outcome =>
      rw [Service.perform]
      split <;> exact h
  | disarmTimeout => exact hdisarm
  | armTimeout => exact Timely.add (s := { s with agenda := s.agenda.disarm }) hdisarm _ _
  | armDelay | schedulePoll => exact h.add _ _

theorem keeps_of_foldl {α : Type} {Q : Service → Prop} {f : Service → α → Service}
    (hf : ∀ s a, Q s → Q (f s a)) (l : List α) (h : Q s) : Q (l.foldl f s) := by
  induction l generalizing s with
  | nil => exact h
  | cons a rest ih => exact ih (hf s a h)

theorem Timely.handle (h : s.Timely)
    (hstep : s.receiver.step (fun _ ↦ true) event = .ok reaction) : (s.handle event).Timely := by
  have hpublish : (s.publish reaction).Timely := h
  rw [handle_eq hstep]
  refine keeps_of_foldl (Q := Timely) (fun _ e hs ↦ hs.perform e) _ ?_
  exact keeps_of_foldl (Q := Timely) (fun _ c hs ↦ hs.carry c) _ hpublish

/-- An appointment stays as long as no timeout is armed or disarmed. -/
theorem mem_agenda_handle {a : Appointment}
    (hstep : s.receiver.step (fun _ ↦ true) event = .ok reaction)
    (huntimed : ∀ e ∈ reaction.journal.effects, e.setsTimeout = false) (h : a ∈ s.agenda) :
    a ∈ (s.handle event).agenda := by
  have hadd : ∀ {agenda : Agenda} (b : Appointment), a ∈ agenda → a ∈ agenda.add b := fun b ha ↦
    (Agenda.perm_add b _).mem_iff.mpr (List.mem_cons_of_mem b ha)
  have hcarried : a ∈ (reaction.answers.foldl carry (s.publish reaction)).agenda := by
    refine keeps_of_foldl (Q := fun s ↦ a ∈ s.agenda) (fun s c hs ↦ ?_) _ h
    rw [carry]
    split
    · exact hs
    · exact hadd _ hs
  rw [handle_eq hstep]
  generalize reaction.answers.foldl carry (s.publish reaction) = w at hcarried
  generalize reaction.journal.effects = effects at huntimed
  induction effects generalizing w with
  | nil => exact hcarried
  | cons e rest ih =>
      obtain ⟨he, hrest⟩ := List.forall_mem_cons.mp huntimed
      refine ih _ ?_ hrest
      cases e with
      | notify => exact hcarried
      | complete id outcome =>
          rw [(w.perform_complete_agenda id outcome).1]
          exact hcarried
      | disarmTimeout | armTimeout => cases he
      | armDelay | schedulePoll => exact hadd _ hcarried

theorem handle_bulletins (hstep : s.receiver.step (fun _ ↦ true) event = .ok reaction)
    (hnone : reaction.journal.notifications = []) :
    (s.handle event).bulletins = s.bulletins := by
  have hpublish : (s.publish reaction).bulletins = s.bulletins := by
    rw [publish, hnone]
    rfl
  rw [handle_eq hstep]
  refine keeps_of_foldl (Q := fun v ↦ v.bulletins = s.bulletins) (fun v e hv ↦ ?_) _ ?_
  · cases e with
    | complete id outcome =>
        rw [perform]
        split <;> exact hv
    | _ => exact hv
  · refine keeps_of_foldl (Q := fun v ↦ v.bulletins = s.bulletins) (fun v c hv ↦ ?_) _ hpublish
    rw [carry]
    split <;> exact hv

/-! ## Between two events -/

/-- A service between two events. -/
structure Wired (timing : Timing) (settings : ChipSettings) (s : Service) : Prop where
  latency : s.latency = settings.latency
  published : s.published = s.receiver.radio.snapshot
  ordered : s.agenda.Ordered
  timely : s.Timely
  circuit : ∃ events history c, Circuit.Reaches timing settings events history c ∧
    c.receiver = s.receiver ∧ (s.arrivals.map Prod.snd).Perm c.inFlight

/-- A service that has taken an event up, which its circuit offers. -/
structure Faces (timing : Timing) (settings : ChipSettings) (event : Event) (u : Service) :
    Prop where
  latency : u.latency = settings.latency
  published : u.published = u.receiver.radio.snapshot
  ordered : u.agenda.Ordered
  timely : u.Timely
  circuit : ∃ events history c, Circuit.Reaches timing settings events history c ∧
    c.receiver = u.receiver ∧ c.Offers event ∧ (u.arrivals.map Prod.snd).Perm (c.left event)

theorem Wired.takes (h : s.Wired timing settings) (htakes : s.Takes event u) :
    u.Faces timing settings event := by
  obtain ⟨hlatency, hreceiver, hpublished, -, -⟩ := htakes.holds
  obtain ⟨hordered, htimely⟩ := htakes.agenda h.ordered h.timely
  obtain ⟨events, history, c, hreached, hc, hperm⟩ := h.circuit
  refine ⟨hlatency.trans h.latency, ?_, hordered, htimely, events, history, c, hreached,
    hc.trans hreceiver.symm, ?_⟩
  · rw [hpublished, h.published, hreceiver]
  · rcases htakes.arrivals h.timely with ⟨answer, rfl, harrivals⟩ | ⟨hother, harrivals⟩
    · rw [harrivals, List.map_cons] at hperm
      have hmem : answer ∈ c.inFlight := hperm.mem_iff.mp List.mem_cons_self
      refine ⟨hmem, ?_⟩
      simpa [Circuit.left] using hperm.erase answer
    · rw [harrivals]
      cases event with
      | callback answer => exact absurd rfl (hother answer)
      | _ => exact ⟨trivial, hperm⟩

theorem Faces.steady (h : u.Faces timing settings event) : u.receiver.radio.Steady := by
  obtain ⟨events, history, c, hreached, hc, -⟩ := h.circuit
  rw [← hc]
  exact hreached.steady

/-- A step of a service is a step of its circuit. -/
theorem Faces.handle (h : u.Faces timing settings event)
    (hstep : u.receiver.step (fun _ ↦ true) event = .ok reaction) :
    u.Fulfils reaction u.receiver.radio.timing.pollInterval (u.handle event) ∧
      (u.handle event).Wired timing settings := by
  have hsteady := h.steady
  obtain ⟨events, history, c, hreached, hc, hoffers, hperm⟩ := h.circuit
  have hspaced : reaction.journal.Spaced u.receiver.radio.timing.pollInterval := by
    obtain ⟨turn, hturn, rfl⟩ := Receiver.step_ok hstep
    exact Controller.step_spaced hsteady hturn
  have hdone := fulfils_handle hstep hspaced
  have hcircuit : c.step event = .ok ({ receiver := reaction.receiver
                                        inFlight := c.left event ++ reaction.answers ++
                                          reaction.journal.elapses }, reaction.journal) := by
    rw [Circuit.step, hc, hstep]
  refine ⟨hdone, hdone.latency.trans h.latency, ?_, hdone.ordered h.ordered, h.timely.handle hstep,
    _, _, _, hreached.step hoffers hcircuit, hdone.receiver.symm, ?_⟩
  · rw [hdone.published, hdone.receiver]
  · have harrivals := hdone.arrivals.map Prod.snd
    simp only [List.map_append, List.map_map, Function.comp_def, List.map_id'] at harrivals
    rw [← Journal.elapses_eq] at harrivals
    refine harrivals.trans (List.perm_append_comm.trans ?_)
    exact (List.perm_append_comm.trans (hperm.append_right _)).append_right _

/-- What has not arrived yet arrives when it would have, however much time passes before. -/
theorem arrivals_elapse (hinbox : s.inbox = []) (later : Nat) :
    Service.arrivals { s with now := later } = s.arrivals := by
  rw [Service.arrivals, Service.arrivals, hinbox]
  rfl

theorem Wired.elapse (h : s.Wired timing settings) {later : Nat} (hnone : s.next? later = none) :
    Wired timing settings { s with now := later } := by
  obtain ⟨hinbox, hlater⟩ := next?_eq_none hnone h.ordered
  refine ⟨h.latency, h.published, h.ordered, fun a ha ↦ (hlater a ha).le, ?_⟩
  rw [arrivals_elapse hinbox]
  exact h.circuit

theorem Runs.wired (hruns : s.Runs trace v) (h : s.Wired timing settings) :
    v.Wired timing settings := by
  induction hruns with
  | refl => exact h
  | handle htakes hstep _ ih => exact ih ((h.takes htakes).handle hstep).2
  | elapse _ hnone _ ih => exact ih (h.elapse hnone)

theorem Faces.exists_step (h : u.Faces timing settings event) (hrange : u.receiver.radio.InRange)
    (hevent : event.InRange) :
    ∃ reaction, u.receiver.step (fun _ ↦ true) event = .ok reaction ∧
      (u.handle event).receiver.radio.InRange := by
  obtain ⟨turn, hturn⟩ := Controller.step_ok (fun call ↦ true && u.receiver.chip.accepts call) hrange
    h.steady hevent
  have hstep : ∃ reaction, u.receiver.step (fun _ ↦ true) event = .ok reaction ∧
      reaction.receiver.radio = turn.radio := by
    rw [Receiver.step, hturn]
    exact ⟨_, rfl, rfl⟩
  obtain ⟨reaction, hreaction, hradio⟩ := hstep
  refine ⟨reaction, hreaction, ?_⟩
  rw [(h.handle hreaction).1.receiver, hradio]
  exact Controller.step_inRange hrange h.steady hevent hturn

/-- What comes due is no request, nor that the hardware is ready. -/
theorem next?_ne {limit : Nat} (h : s.next? limit = some (event, u)) :
    event ≠ .ready ∧ ∀ r, event ≠ .request r := by
  rcases next?_cases h with ⟨_, _, _, rfl, _⟩ | ⟨⟨due, alarm⟩, _, _, _, _, rfl, _⟩
  · simp
  · cases alarm <;> simp [Alarm.event]

theorem next?_inRange {limit : Nat} (h : s.next? limit = some (event, u)) : event.InRange := by
  cases event with
  | request r => exact absurd rfl ((next?_ne h).2 r)
  | _ => trivial

/-- What a service does by itself is a run. -/
theorem exists_runs_runUntil (h : s.Wired timing settings) (hrange : s.receiver.radio.InRange)
    (goal : Service → Bool) (limit fuel : Nat) :
    ∃ trace, s.Runs trace (s.runUntil goal limit fuel) := by
  induction fuel generalizing s with
  | zero => exact ⟨[], .refl s⟩
  | succ fuel ih =>
      rw [runUntil]
      split
      · exact ⟨[], .refl s⟩
      · split
        next event u hnext =>
          have hfaces := h.takes (.due hnext)
          have hrange' : u.receiver.radio.InRange := by
            rw [(Takes.due hnext).holds.receiver]
            exact hrange
          obtain ⟨reaction, hstep, hlater⟩ := hfaces.exists_step hrange' (next?_inRange hnext)
          obtain ⟨trace, hruns⟩ := ih (hfaces.handle hstep).2 hlater
          exact ⟨_, .handle (.due hnext) hstep hruns⟩
        next => exact ⟨[], .refl s⟩

/-! ## A service that has just been opened -/

/-- A service that has been opened on a simulated chip. -/
def opened (timing : Timing) (settings : ChipSettings) : Service :=
  (onTuner timing (.ofSettings settings)).handle .ready

theorem faces_ready (timing : Timing) (settings : ChipSettings) :
    (onTuner timing (.ofSettings settings)).Faces timing settings .ready :=
  ⟨rfl, rfl, List.Pairwise.nil, List.forall_mem_nil _, _, _, _, .start, rfl, trivial, .nil⟩

theorem wired_opened (timing : Timing) (settings : ChipSettings) :
    (opened timing settings).Wired timing settings :=
  ((faces_ready timing settings).handle rfl).2

theorem inRange_opened (timing : Timing) (settings : ChipSettings) :
    (opened timing settings).receiver.radio.InRange := by
  obtain ⟨-, -, hrange⟩ :=
    (faces_ready timing settings).exists_step (Controller.initial_inRange timing) trivial
  exact hrange

end Service

end FmTuner
