import FmTuner.Proofs.Schedules

/-!
# Rounds of a service

Left to itself, a service takes what is due, one thing after another. On a scene that goes on this
is a stale poll, which does nothing, or the one event that is live. So it goes through the courses
of a scene, in a time and a number of rounds that depend on their length.
-/

namespace FmTuner

namespace Service

variable {timing : Timing} {settings : ChipSettings} {scene u : Scene} {history : Journal}
  {s v : Service} {event : Event} {horizon polls : Nat}

/-- What a service looks like that has taken an event off those that are due. -/
structure Took (s v : Service) : Prop where
  receiver : v.receiver = s.receiver
  latency : v.latency = s.latency
  ended : v.ended = s.ended
  published : v.published = s.published
  waiting : v.waiting = s.waiting
  answered : v.answered = s.answered
  timeouts : v.timeouts = s.timeouts
  ordered : v.agenda.Ordered

theorem Works.took (h : s.Works timing settings scene history) (hv : s.Took v) :
    v.Works timing settings scene history := by
  refine ⟨hv.ended.trans h.ended, hv.latency.trans h.latency, ?_, hv.ordered,
    hv.answered.trans h.answered, fun hnone ↦ hv.timeouts.trans (h.untimed hnone)⟩
  rw [hv.receiver]
  exact h.shown

theorem handle_of_ignores (hrested : s.receiver.radio.Rested)
    (hpublished : s.published = s.receiver.radio.snapshot) {generation : Nat}
    (h : s.receiver.radio.Ignores (.pollDue generation)) : s.handle (.pollDue generation) = s := by
  have hstep : s.receiver.step (fun _ ↦ true) (.pollDue generation) =
      .ok { receiver := s.receiver, journal := [], answers := [] } := by
    rw [Receiver.step, Controller.step_pollDue_of_ignores hrested h]
    rfl
  rw [handle, hstep]
  simp only [Journal.effects_nil, List.foldl_nil, publish, ← hpublished]
  rfl

/-- The one event that is underway takes a service to what its delivery comes to. -/
theorem Poised.deliver (h : s.Poised timing settings scene history scene.asked)
    (hcovers : timing.Covers settings.latency) (htime : scene.InTime timing settings.latency)
    (hdelivers : scene.Delivers timing u) (hwithin : s.Within horizon)
    (hfew : s.polls.length ≤ polls) :
    (s.handle (scene.event s.receiver.radio)).At timing settings u (horizon + timing.longest)
      (polls + 2) := by
  have hleft : (scene.circuit s.receiver).left (scene.event s.receiver.radio) = [] := by
    cases hflight : scene.flight <;> simp [Scene.event, Scene.circuit, Circuit.left, hflight]
  exact h.handle hleft (hdelivers.step h.shown).2.2 (hdelivers.steps hcovers htime) hwithin hfew

theorem Stages.poised (h : s.Stages timing settings scene history) (hv : s.Took v)
    (hnone : v.arrivals = []) (hnow : ∀ x ∈ s.arrivals, v.now ≤ x.1) :
    v.Poised timing settings scene history scene.asked := by
  refine ⟨h.toWorks.took hv, hv.waiting.trans h.waiting, hnone, fun f hf due hdue ↦ ?_⟩
  obtain ⟨arrival, harrivals, -, hearly⟩ := h.underway f hf
  have hle : v.now ≤ arrival := hnow _ (harrivals ▸ List.mem_cons_self)
  have hlt := hearly due (hv.timeouts ▸ hdue)
  omega

theorem Stages.now_le (h : s.Stages timing settings scene history) :
    ∀ x ∈ s.arrivals, s.now ≤ x.1 := by
  intro x hx
  cases hflight : scene.flight with
  | none =>
      rw [h.quiet hflight] at hx
      cases hx
  | some f =>
      obtain ⟨arrival, harrivals, hle, -⟩ := h.underway f hflight
      rw [harrivals, List.mem_singleton] at hx
      rw [hx]
      exact hle

section

variable {a : Appointment} {rest : Agenda} (hinbox : s.inbox = []) (hagenda : s.agenda = a :: rest)

include hinbox hagenda

/-- Nothing arrives before the first appointment. -/
theorem first_le_arrivals (hordered : s.agenda.Ordered) : ∀ x ∈ s.arrivals, a.due ≤ x.1 := by
  intro x hx
  rw [arrivals, hinbox, List.map_nil, List.nil_append] at hx
  obtain ⟨b, hb, hbrings⟩ := List.mem_filterMap.mp hx
  rw [Appointment.due_of_arrival? hbrings]
  rw [hagenda] at hb hordered
  rcases List.mem_cons.mp hb with rfl | hb
  · exact le_rfl
  · exact (List.pairwise_cons.mp hordered).1 b hb

/-- A timeout is never the first on the agenda. -/
theorem Stages.not_timeout (h : s.Stages timing settings scene history) : a.timeout? = none := by
  by_contra hne
  obtain ⟨due, hdue⟩ := Option.ne_none_iff_exists'.mp hne
  have hmem : due ∈ s.timeouts := by
    rw [timeouts, hagenda, List.filterMap_cons_some hdue]
    exact List.mem_cons_self
  -- While the timeout is armed there is a transition in flight, whose answer comes before it.
  cases hflight : scene.flight with
  | none =>
      have hguarded := h.shown.guarded
      rw [hflight, Option.map_none, Option.map_eq_none_iff] at hguarded
      rw [h.untimed hguarded] at hmem
      cases hmem
  | some f =>
      obtain ⟨arrival, harrivals, -, hearly⟩ := h.underway f hflight
      have hlt := hearly due hmem
      have hle := first_le_arrivals hinbox hagenda h.ordered _ (harrivals ▸ List.mem_cons_self)
      rw [Appointment.due_of_timeout? hdue] at hlt
      omega

end

/-- The service that has taken the first appointment off its agenda. -/
def afterFirst (s : Service) (a : Appointment) (rest : Agenda) : Service :=
  { s with now := max s.now a.due, agenda := rest }

theorem polls_first {a : Appointment} {rest : Agenda} (hagenda : s.agenda = a :: rest)
    {generation : Nat} (halarm : a.alarm = .poll generation) :
    s.polls = (a.due, generation) :: (s.afterFirst a rest).polls := by
  have hpoll : a.poll? = some (a.due, generation) := by simp [Appointment.poll?, halarm]
  rw [polls, hagenda, List.filterMap_cons_some hpoll]
  rfl

section

variable {a : Appointment} {rest : Agenda} (hinbox : s.inbox = []) (hagenda : s.agenda = a :: rest)

include hinbox hagenda

theorem arrivals_first : s.arrivals = a.arrival?.toList ++ (s.afterFirst a rest).arrivals := by
  simp only [arrivals, afterFirst, hinbox, hagenda, List.map_nil, List.nil_append]
  cases harrival : a.arrival? <;> simp [harrival]

theorem Stages.took_first (h : s.Stages timing settings scene history) :
    s.Took (s.afterFirst a rest) := by
  have hordered := h.ordered
  rw [hagenda] at hordered
  refine ⟨rfl, rfl, rfl, rfl, rfl, rfl, ?_, (List.pairwise_cons.mp hordered).2⟩
  rw [timeouts, timeouts, hagenda, List.filterMap_cons_none (h.not_timeout hinbox hagenda)]
  rfl

theorem Stages.now_first_le (h : s.Stages timing settings scene history) :
    ∀ x ∈ s.arrivals, (s.afterFirst a rest).now ≤ x.1 := fun x hx ↦
  max_le (h.now_le x hx) (first_le_arrivals hinbox hagenda h.ordered x hx)

theorem Within.first (h : s.Within horizon) (hdue : a.due ≤ horizon) :
    (s.afterFirst a rest).Within horizon := by
  refine ⟨max_le h.now hdue, fun x hx ↦ ?_, fun x hx ↦ h.polls x ?_⟩
  · refine h.arrivals x ?_
    rw [arrivals_first hinbox hagenda]
    exact List.mem_append_right _ hx
  · rw [Service.polls, hagenda]
    exact ((List.sublist_cons_self a rest).filterMap _).mem hx

end

/-- The live event takes a service to what the delivery comes to. -/
theorem Stages.live (h : s.Stages timing settings scene history)
    (hcovers : timing.Covers settings.latency) (hdelivers : scene.Delivers timing u)
    (hv : s.Took v) (hnone : v.arrivals = []) (hnow : ∀ x ∈ s.arrivals, v.now ≤ x.1)
    (hevent : event = scene.event s.receiver.radio) (hwithin : v.Within horizon)
    (hfew : v.polls.length ≤ polls) :
    (v.handle event).At timing settings u (horizon + timing.longest) (polls + 2) := by
  rw [hevent, ← hv.receiver]
  exact (h.poised hv hnone hnow).deliver hcovers h.inTime hdelivers hwithin hfew

/-- A callback that has arrived is the answer that is waited for. -/
theorem Stages.round_arrived (h : s.Stages timing settings scene history)
    (hcovers : timing.Covers settings.latency) (hdelivers : scene.Delivers timing u)
    (hwithin : s.Within horizon) (hfew : s.polls.length ≤ polls) {c : Callback}
    {rest : List Callback} (hinbox : s.inbox = c :: rest) (hv : v = { s with inbox := rest }) :
    (v.handle (.callback c)).At timing settings u (horizon + timing.longest) (polls + 2) := by
  subst hv
  have hfirst : s.arrivals = (s.now, c) :: arrivals { s with inbox := rest } := by
    rw [arrivals, hinbox]
    rfl
  have htook : s.Took { s with inbox := rest } :=
    ⟨rfl, rfl, rfl, rfl, rfl, rfl, rfl, h.ordered⟩
  cases hflight : scene.flight with
  | none => simp [h.quiet hflight] at hfirst
  | some f =>
      obtain ⟨arrival, harrivals, -, -⟩ := h.underway f hflight
      rw [harrivals, List.cons.injEq, Prod.mk.injEq] at hfirst
      obtain ⟨⟨-, rfl⟩, hnone⟩ := hfirst
      refine h.live hcovers hdelivers htook hnone.symm h.now_le (by rw [Scene.event, hflight])
        ⟨hwithin.now, ?_, hwithin.polls⟩ hfew
      rw [← hnone]
      exact List.forall_mem_nil _

/-- A round of a service at a scene that goes on to `u`: it has taken a stale poll and is where it
was, or it has gone on. -/
def Rounds (timing : Timing) (settings : ChipSettings) (scene u : Scene) (horizon polls : Nat)
    (s : Service) : Prop :=
  (∃ fewer, polls = fewer + 1 ∧ s.At timing settings scene horizon fewer) ∨
    s.At timing settings u (horizon + timing.longest) (polls + 2)

section

variable {a : Appointment} {rest : Agenda} (hinbox : s.inbox = []) (hagenda : s.agenda = a :: rest)

include hinbox hagenda

/-- If the first appointment brings a callback, it is the answer that is waited for. -/
theorem Stages.round_callback (h : s.Stages timing settings scene history)
    (hcovers : timing.Covers settings.latency) (hdelivers : scene.Delivers timing u)
    (hwithin : s.Within horizon) (hfew : s.polls.length ≤ polls) {x : Nat × Callback}
    (hx : a.arrival? = some x) :
    a.due ≤ horizon ∧ ((s.afterFirst a rest).handle a.alarm.event).At timing settings u
      (horizon + timing.longest) (polls + 2) := by
  have hfirst : s.arrivals = x :: (s.afterFirst a rest).arrivals := by
    rw [arrivals_first hinbox hagenda, hx]
    rfl
  have hdue : a.due ≤ horizon := by
    rw [← Appointment.due_of_arrival? hx]
    exact hwithin.arrivals x (hfirst ▸ List.mem_cons_self)
  have hless : (s.afterFirst a rest).polls.length ≤ s.polls.length := by
    rw [Service.polls, Service.polls, hagenda]
    exact ((List.sublist_cons_self a rest).filterMap _).length_le
  cases hflight : scene.flight with
  | none => simp [h.quiet hflight] at hfirst
  | some f =>
      obtain ⟨arrival, harrivals, -, -⟩ := h.underway f hflight
      rw [harrivals, List.cons.injEq] at hfirst
      obtain ⟨rfl, hnone⟩ := hfirst
      have hevent : a.alarm.event = scene.event s.receiver.radio := by
        rw [Appointment.event_of_arrival? hx, Scene.event, hflight]
      exact ⟨hdue, h.live hcovers hdelivers (h.took_first hinbox hagenda) hnone.symm
        (h.now_first_le hinbox hagenda) hevent (hwithin.first hinbox hagenda hdue)
        (hless.trans hfew)⟩

variable {generation : Nat} (halarm : a.alarm = .poll generation)

include halarm

theorem arrivals_first_poll : (s.afterFirst a rest).arrivals = s.arrivals := by
  rw [arrivals_first hinbox hagenda, Appointment.arrival?, halarm]
  rfl

/-- A first appointment with a poll that is stale is taken without effect. -/
theorem Stages.round_stale (h : s.Stages timing settings scene history)
    (hstale : scene.flight = none → generation ≠ s.receiver.radio.generation) :
    ((s.afterFirst a rest).handle a.alarm.event).Stages timing settings scene history ∧
      (s.afterFirst a rest).handle a.alarm.event = s.afterFirst a rest := by
  have htook := h.took_first hinbox hagenda
  have hpoll := polls_first hagenda halarm
  have harrivals := arrivals_first_poll hinbox hagenda halarm
  have hignores : (s.afterFirst a rest).receiver.radio.Ignores (.pollDue generation) := by
    cases hflight : scene.flight with
    | none => exact .inl (hstale hflight)
    | some f =>
        obtain ⟨p, hpending, -⟩ := h.shown.radio.pending_some hflight
        refine .inr (.inl ?_)
        rw [htook.receiver, show s.receiver.radio.pending = some p from hpending]
        simp
  have hrested : (s.afterFirst a rest).receiver.radio.Rested := fun _ q hq ↦ by
    have hqueue : s.receiver.radio.queue = [] := h.shown.queue
    rw [htook.receiver, hqueue] at hq
    cases hq
  have hsame := handle_of_ignores hrested (htook.published.trans h.published) hignores
  rw [halarm, Alarm.event, hsame]
  refine ⟨⟨h.toWorks.took htook, h.published, h.waiting, h.inTime, ?_, ?_, ?_⟩, rfl⟩
  · rw [harrivals]
    exact h.quiet
  · intro f hf
    obtain ⟨arrival, hcomes, -, hearly⟩ := h.underway f hf
    refine ⟨arrival, harrivals.trans hcomes, ?_, htook.timeouts ▸ hearly⟩
    exact h.now_first_le hinbox hagenda _ (hcomes ▸ List.mem_cons_self)
  · intro hflight hscanning
    obtain ⟨due, hdue⟩ := h.scheduled hflight hscanning
    rw [hpoll] at hdue
    rcases List.mem_cons.mp hdue with heq | hdue
    · exact absurd (Prod.mk.inj heq).2.symm (hstale hflight)
    · exact ⟨due, hdue⟩

/-- A poll that is the first appointment is stale, or the scan goes on with it. -/
theorem Stages.round_poll (h : s.Stages timing settings scene history)
    (hcovers : timing.Covers settings.latency) (hdelivers : scene.Delivers timing u)
    (hwithin : s.Within horizon) (hfew : s.polls.length ≤ polls) :
    a.due ≤ horizon ∧ ((s.afterFirst a rest).handle a.alarm.event).Rounds timing settings scene u
      horizon polls := by
  have hpoll := polls_first hagenda halarm
  have hdue : a.due ≤ horizon := hwithin.polls _ (hpoll ▸ List.mem_cons_self)
  have hfirst := hwithin.first hinbox hagenda hdue
  have hless : s.polls.length = (s.afterFirst a rest).polls.length + 1 := by
    rw [hpoll]
    rfl
  refine ⟨hdue, ?_⟩
  by_cases hstale : scene.flight = none → generation ≠ s.receiver.radio.generation
  · obtain ⟨hstages, hsame⟩ := h.round_stale hinbox hagenda halarm hstale
    rw [hsame] at hstages ⊢
    exact .inl ⟨polls - 1, by omega, ⟨_, hstages⟩, hfirst, by omega⟩
  · rw [Classical.not_imp, Decidable.not_not] at hstale
    obtain ⟨hflight, rfl⟩ := hstale
    have hnone : (s.afterFirst a rest).arrivals = [] :=
      (arrivals_first_poll hinbox hagenda halarm).trans (h.quiet hflight)
    have hevent : a.alarm.event = scene.event s.receiver.radio := by
      rw [halarm, Scene.event, hflight]
      rfl
    exact .inr (h.live hcovers hdelivers (h.took_first hinbox hagenda) hnone
      (h.now_first_le hinbox hagenda) hevent hfirst (by omega))

end

/-- If a scene goes on, there is something on the agenda unless an answer has arrived. -/
theorem Stages.agenda_ne_nil (h : s.Stages timing settings scene history)
    (hdelivers : scene.Delivers timing u) (hinbox : s.inbox = []) : s.agenda ≠ [] := by
  intro hagenda
  cases hflight : scene.flight with
  | some f =>
      obtain ⟨arrival, harrivals, -⟩ := h.underway f hflight
      simp [arrivals, hinbox, hagenda] at harrivals
  | none =>
      obtain ⟨due, hdue⟩ := h.scheduled hflight (hdelivers.scanning_of_none hflight)
      simp [Service.polls, hagenda] at hdue

/-- A service at a scene that goes on takes an event: a stale poll, which changes nothing, or the
one that takes it to what the delivery comes to. -/
theorem At.round (h : s.At timing settings scene horizon polls)
    (hcovers : timing.Covers settings.latency) (hdelivers : scene.Delivers timing u) {limit : Nat}
    (hlimit : horizon ≤ limit) :
    ∃ event v, s.next? limit = some (event, v) ∧
      (v.handle event).Rounds timing settings scene u horizon polls := by
  obtain ⟨⟨history, hstages⟩, hwithin, hfew⟩ := h
  cases hinbox : s.inbox with
  | cons c rest =>
      exact ⟨.callback c, { s with inbox := rest }, by simp [next?, hinbox],
        .inr (hstages.round_arrived hcovers hdelivers hwithin hfew hinbox rfl)⟩
  | nil =>
      obtain ⟨a, rest, hagenda⟩ := List.exists_cons_of_ne_nil
        (hstages.agenda_ne_nil hdelivers hinbox)
      have hround : a.due ≤ horizon ∧ ((s.afterFirst a rest).handle a.alarm.event).Rounds timing
          settings scene u horizon polls := by
        cases harrival : a.arrival? with
        | some x =>
            exact (hstages.round_callback hinbox hagenda hcovers hdelivers hwithin hfew
              harrival).imp_right .inr
        | none =>
            obtain ⟨generation, halarm⟩ :=
              Appointment.poll_of_none harrival (hstages.not_timeout hinbox hagenda)
            exact hstages.round_poll hinbox hagenda halarm hcovers hdelivers hwithin hfew
      obtain ⟨hdue, hround⟩ := hround
      refine ⟨a.alarm.event, s.afterFirst a rest, ?_, hround⟩
      simp [next?, hinbox, hagenda, hdue.trans hlimit, afterFirst]

/-! ## Runs -/

theorem Stages.inbox_nil (h : s.Stages timing settings scene history)
    (hflight : scene.flight = none) : s.inbox = [] := by
  have hnone := h.quiet hflight
  rw [arrivals, List.append_eq_nil_iff, List.map_eq_nil_iff] at hnone
  exact hnone.1

/-- A goal that is reached at the scene `u` alone, as far as a course to it through scenes with a
property is concerned. -/
structure Awaits (timing : Timing) (settings : ChipSettings) (P : Scene → Prop) (u : Scene)
    (goal : Service → Bool) : Prop where
  before : ∀ v w later, Stages timing settings w later v → P w → goal v = false
  reached : ∀ v later, Stages timing settings u later v → goal v = true

/-- A service goes through a course of its scene until a goal is reached, if only the end of the
course is one. -/
theorem At.runUntil {P : Scene → Prop} {n : Nat} (hcourse : Scene.Course timing P n scene u)
    (h : s.At timing settings scene horizon polls) (hcovers : timing.Covers settings.latency)
    (hrests : u.flight = none) {goal : Service → Bool}
    (hgoal : Awaits timing settings P u goal) {limit : Nat}
    (hlimit : horizon + n * timing.longest ≤ limit) {fuel : Nat} (hfuel : 3 * n + polls ≤ fuel) :
    (s.runUntil goal limit fuel).At timing settings u (horizon + n * timing.longest)
      (polls + 2 * n) := by
  induction fuel generalizing s scene n horizon polls with
  | zero =>
      cases hcourse with
      | refl => exact h.mono (Nat.le_add_right _ _) (Nat.le_add_right _ _)
      | head => omega
  | succ fuel ih =>
      cases hcourse with
      | refl =>
          obtain ⟨history, hstages⟩ := h.stages
          have hdone : s.runUntil goal limit (fuel + 1) = s := by
            rw [Service.runUntil, hstages.inbox_nil hrests, hgoal.reached s history hstages]
            rfl
          rw [hdone]
          exact h.mono (Nat.le_add_right _ _) (Nat.le_add_right _ _)
      | @head n _ w _ hs hdelivers hcourse =>
          obtain ⟨history, hstages⟩ := h.stages
          rw [Nat.succ_mul] at hlimit ⊢
          obtain ⟨event, v, hnext, hround⟩ :=
            h.round hcovers hdelivers (by omega : horizon ≤ limit)
          have hrun : s.runUntil goal limit (fuel + 1) =
              (v.handle event).runUntil goal limit fuel := by
            rw [Service.runUntil, hgoal.before s scene history hstages hs, hnext]
            simp
          rw [hrun]
          rcases hround with ⟨fewer, rfl, hsame⟩ | hlater
          · have hall := ih (.head hs hdelivers hcourse) hsame (by rw [Nat.succ_mul]; exact hlimit)
              (by omega)
            rw [Nat.succ_mul] at hall
            exact hall.mono le_rfl (by omega)
          · exact (ih hcourse hlater (by omega) (by omega)).mono (by omega) (by omega)

/-- Waiting for a goal that is the end of a course is worth it, if there is time enough. -/
theorem At.wait {P : Scene → Prop} {n : Nat} (hcourse : Scene.Course timing P n scene u)
    (h : s.At timing settings scene horizon polls) (hcovers : timing.Covers settings.latency)
    (hrests : u.flight = none) {goal : Service → Bool}
    (hgoal : Awaits timing settings P u goal) {ms : Nat}
    (htime : horizon + n * timing.longest < s.now + ms) (hfuel : 3 * n + polls ≤ stamina) :
    (s.wait goal ms).At timing settings u (horizon + n * timing.longest) (polls + 2 * n) := by
  have hrun := h.runUntil hcourse hcovers hrests hgoal (Nat.le_sub_one_of_lt htime) hfuel
  obtain ⟨history, hstages⟩ := hrun.stages
  have hwait : s.wait goal ms = s.runUntil goal (s.now + ms - 1) stamina := by
    rw [Service.wait, if_pos (hgoal.reached _ history hstages)]
  rw [hwait]
  exact hrun

end Service

end FmTuner
