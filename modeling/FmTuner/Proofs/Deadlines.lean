import FmTuner.Proofs.Drives
import FmTuner.Proofs.Runs

/-!
# Transitions end on time

A transition that drives the chip has one callback to wait for at a time, and the timeout that was
armed when it began. `Service.Aloft` says so of a service: the callback arrives when as many commands
are through as the transition has come to, counted from its beginning, and nothing arms the timeout
again. So the transition is done when all its commands are, or times out before.
-/

namespace FmTuner

/-- On a trace a transition has ended at a time, and not before. -/
def Trace.Ends (trace : Trace) (p : Pending) (time : Nat) (outcome : Outcome) (state : RadioState) :
    Prop :=
  ∃ before j after, trace = before ++ (time, j) :: after ∧ j.Resolves p outcome state ∧
    ∀ x ∈ before, ∀ q timedOut c, .resolved q timedOut c ∈ x.2 → q.id ≠ p.id

namespace Trace

variable {trace more : Trace} {p : Pending} {time : Nat} {outcome : Outcome} {state : RadioState}

theorem Ends.append (h : trace.Ends p time outcome state) (more : Trace) :
    Ends (trace ++ more) p time outcome state := by
  obtain ⟨before, j, after, rfl, hends⟩ := h
  exact ⟨before, j, after ++ more, by simp, hends⟩

theorem Ends.after (h : more.Ends p time outcome state)
    (hnone : ∀ x ∈ trace, ∀ e ∈ x.2, e.isTimed = false) :
    Ends (trace ++ more) p time outcome state := by
  obtain ⟨before, j, after, rfl, hresolves, hbefore⟩ := h
  refine ⟨trace ++ before, j, after, by simp, hresolves, fun x hx q timedOut c hmem ↦ ?_⟩
  rcases List.mem_append.mp hx with hx | hx
  · cases hnone x hx _ hmem
  · exact hbefore x hx q timedOut c hmem

theorem ends_of_resolves {j : Journal} (h : j.Resolves p outcome state) (rest : Trace) :
    Ends ((time, j) :: rest) p time outcome state :=
  ⟨[], j, rest, rfl, h, List.forall_mem_nil _⟩

theorem not_ends (hnone : ∀ x ∈ trace, ∀ e ∈ x.2, e.isTimed = false) :
    ¬ trace.Ends p time outcome state := by
  rintro ⟨before, j, after, rfl, hresolves, -⟩
  obtain ⟨q, timedOut, c, hmem, -⟩ := hresolves.resolved
  cases hnone (time, j) (by simp) _ hmem

/-- The transition that began at a time has ended when its commands were through, or when its budget
had run out. -/
inductive Settles (trace : Trace) (p : Pending) (begun cost budget : Nat) : Prop where
  | done (hle : cost ≤ budget) (hends : trace.Ends p (begun + cost) .done p.destination)
  | timedOut (hle : budget ≤ cost) (hends : trace.Ends p (begun + budget) .timedOut .error)

variable {begun cost budget : Nat}

theorem Settles.append (h : trace.Settles p begun cost budget) (more : Trace) :
    Settles (trace ++ more) p begun cost budget := by
  cases h with
  | done hle hends => exact .done hle (hends.append more)
  | timedOut hle hends => exact .timedOut hle (hends.append more)

theorem Settles.after (h : more.Settles p begun cost budget)
    (hnone : ∀ x ∈ trace, ∀ e ∈ x.2, e.isTimed = false) :
    Settles (trace ++ more) p begun cost budget := by
  cases h with
  | done hle hends => exact .done hle (hends.after hnone)
  | timedOut hle hends => exact .timedOut hle (hends.after hnone)

theorem Settles.cons (h : trace.Settles p begun cost budget) {j : Journal}
    (hnone : ∀ e ∈ j, e.isTimed = false) (time : Nat) :
    Settles ((time, j) :: trace) p begun cost budget := by
  have hone : ∀ x ∈ [(time, j)], ∀ e ∈ x.2, e.isTimed = false := List.forall_mem_singleton.mpr hnone
  exact h.after hone

end Trace

namespace Service

variable {timing : Timing} {settings : ChipSettings} {s u v w : Service} {event : Event}
  {reaction : Receiver.Reaction} {trace more : Trace} {pause : Nat}

/-! ## Timeouts on the agenda -/

/-- The one timeout on the agenda comes first, or it stays where it is. -/
theorem Takes.timeouts (h : s.Takes event u) (hordered : s.agenda.Ordered) (htimely : s.Timely)
    {due id : Nat} (harmed : ⟨due, .timeout id⟩ ∈ s.agenda) (honly : s.timeouts = [due]) :
    (event = .timeout id ∧ u.now = due ∧ ∀ x ∈ s.arrivals, due ≤ x.1) ∨
      (∀ i, event ≠ .timeout i) ∧ ⟨due, .timeout id⟩ ∈ u.agenda ∧ u.timeouts = [due] := by
  cases h with
  | request r awaited => exact .inr ⟨by simp, harmed, honly⟩
  | due hnext =>
      rcases next?_cases hnext with ⟨answer, rest, -, rfl, rfl⟩ |
        ⟨a, rest, hinbox, hagenda, -, rfl, rfl⟩
      · exact .inr ⟨by simp, harmed, honly⟩
      · rw [Service.timeouts, hagenda] at honly
        have hmem := harmed
        rw [hagenda, List.mem_cons] at hmem
        cases htimeout : a.timeout? with
        | none =>
            rw [List.filterMap_cons_none htimeout] at honly
            have hrest : ⟨due, .timeout id⟩ ∈ rest := hmem.resolve_left fun heq ↦ by
              rw [← heq] at htimeout
              cases htimeout
            refine .inr ⟨fun i hi ↦ ?_, hrest, honly⟩
            obtain ⟨time, alarm⟩ := a
            cases alarm with
            | timeout j => cases htimeout
            | delay | poll | answer => cases hi
        | some time =>
            rw [List.filterMap_cons_some htimeout, List.cons.injEq] at honly
            have hfirst : ⟨due, .timeout id⟩ = a := hmem.resolve_right fun hrest ↦ by
              have hnone := List.filterMap_eq_nil_iff.mp honly.2 _ hrest
              cases hnone
            subst hfirst
            exact .inl ⟨rfl, max_eq_right (htimely _ harmed),
              first_le_arrivals hinbox hagenda hordered⟩

/-- Whatever is taken up, no poll comes on the agenda, and one that is due goes off it. -/
theorem Takes.polls (h : s.Takes event u) :
    u.polls.length ≤ s.polls.length ∧
      ∀ generation, event = .pollDue generation → u.polls.length < s.polls.length := by
  cases h with
  | request => exact ⟨le_rfl, fun _ hpoll ↦ by cases hpoll⟩
  | due hnext =>
      rcases next?_cases hnext with ⟨_, _, _, rfl, rfl⟩ | ⟨⟨due, alarm⟩, rest, _, hagenda, _, rfl, rfl⟩
      · exact ⟨le_rfl, fun _ hpoll ↦ by cases hpoll⟩
      · have hless : (s.afterFirst ⟨due, alarm⟩ rest).polls.length ≤ s.polls.length := by
          rw [Service.polls, Service.polls, hagenda]
          exact ((List.sublist_cons_self _ rest).filterMap _).length_le
        refine ⟨hless, fun generation hpoll ↦ ?_⟩
        cases alarm with
        | poll =>
            rw [polls_first hagenda rfl]
            exact Nat.lt_succ_self _
        | timeout | delay | answer => cases hpoll

/-- A timeout that is armed last is the only one on the agenda. -/
theorem handle_armed (hstep : s.receiver.step (fun _ ↦ true) event = .ok reaction)
    {before : Journal} {id after : Nat}
    (harmed : reaction.journal = before ++ [.effect (.armTimeout id after)]) :
    ⟨s.now + after, .timeout id⟩ ∈ (s.handle event).agenda ∧
      (s.handle event).timeouts = [s.now + after] := by
  let w := before.effects.foldl perform (reaction.answers.foldl carry (s.publish reaction))
  have hw : s.handle event = w.perform (.armTimeout id after) := by
    have hlast : Journal.effects [.effect (.armTimeout id after)] = [.armTimeout id after] := rfl
    rw [handle_eq hstep, harmed, Journal.effects_append, List.foldl_append, hlast, List.foldl_cons,
      List.foldl_nil]
  have hnow : w.now = s.now :=
    (foldl_keeps perform_keeps _ _).now.trans (foldl_keeps carry_keeps _ _).now
  rw [hw, ← hnow]
  constructor
  · exact (Agenda.perm_add _ _).mem_iff.mpr List.mem_cons_self
  · exact List.perm_singleton.mp (w.perform_timeouts_set rfl none)

theorem Fulfils.timeouts_of_untimed (h : s.Fulfils reaction pause v)
    (huntimed : ∀ e ∈ reaction.journal.effects, e.setsTimeout = false) :
    v.timeouts.Perm s.timeouts := by
  rcases h.timeouts with ⟨-, hperm⟩ | hset
  · exact hperm
  · -- No set of timeouts is the one that any timeout armed before would have left.
    have hnone := hset none
    have hsome := hset (some (0, 0))
    rw [Effect.foldl_arm huntimed] at hnone hsome
    have hlength := hnone.length_eq.symm.trans hsome.length_eq
    cases hlength

/-! ## Arrivals -/

theorem Wired.now_le_arrivals (h : s.Wired timing settings) : ∀ x ∈ s.arrivals, s.now ≤ x.1 := by
  intro x hx
  rcases List.mem_append.mp hx with hx | hx
  · obtain ⟨answer, -, rfl⟩ := List.mem_map.mp hx
    exact le_rfl
  · obtain ⟨a, ha, harrival⟩ := List.mem_filterMap.mp hx
    rw [Appointment.due_of_arrival? harrival]
    exact h.timely a ha

/-- While a transition is in flight, one callback is on its way. -/
theorem Wired.one_underway (h : s.Wired timing settings) {p : Pending}
    (hpending : s.receiver.radio.pending = some p) : s.arrivals.length = 1 := by
  obtain ⟨events, history, c, hreached, hc, hperm⟩ := h.circuit
  have hlength := hperm.length_eq
  rw [List.length_map] at hlength
  rw [hlength]
  rw [← hc] at hpending
  rcases hreached.sound_or_failed with hsound | hfailed
  · cases hsound with
    | resting hnone => cases hpending.symm.trans hnone
    | waiting _ _ _ _ hexpects => rw [hexpects.inFlight, List.length_singleton]
  · cases hpending.symm.trans hfailed.pending

/-- The one callback that is on its way answers the command that was sent. -/
theorem Fulfils.arrivals_single (h : s.Fulfils reaction pause v) (hnone : s.arrivals = [])
    {command : Command} (hdelays : reaction.journal.delays = command.delayMs.toList)
    (hone : v.arrivals.length = 1) :
    ∃ answer, v.arrivals = [(s.now + command.duration s.latency, answer)] := by
  have hperm := h.arrivals
  have hlength := hperm.length_eq
  rw [hnone, List.append_nil, hdelays] at hperm hlength
  rw [hone, List.length_append, List.length_map, List.length_map] at hlength
  cases hdelay : command.delayMs with
  | none =>
      rw [hdelay] at hperm hlength
      obtain ⟨answer, hanswer⟩ := List.length_eq_one_iff.mp (by simpa using hlength.symm)
      refine ⟨answer, List.perm_singleton.mp ?_⟩
      simpa [hanswer, Command.duration, hdelay] using hperm
  | some ms =>
      rw [hdelay] at hperm hlength
      have hanswers : reaction.answers = [] := by simpa using hlength
      refine ⟨.delayElapsed, List.perm_singleton.mp ?_⟩
      simpa [hanswers, Command.duration, hdelay] using hperm

/-! ## In flight -/

/-- A transition that began at a time is in flight and waits for its command at an index. -/
structure Aloft (timing : Timing) (settings : ChipSettings) (p : Pending) (begun index : Nat)
    (s : Service) : Prop where
  wired : s.Wired timing settings
  index_lt : index < p.action.commands.length
  pending : s.receiver.radio.pending = some (p.reached index)
  underway : ∃ answer, s.arrivals =
    [(begun + Command.span settings.latency (p.action.commands.take (index + 1)), answer)]
  armed : ⟨begun + timing.budget p.action.operation, .timeout p.id⟩ ∈ s.agenda
  only : s.timeouts = [begun + timing.budget p.action.operation]

variable {p : Pending} {begun index limit : Nat}

/-- Neither the callback nor the timeout is overdue. -/
theorem Aloft.now_le (h : s.Aloft timing settings p begun index) :
    s.now ≤ begun + Command.span settings.latency p.action.commands ∧
      s.now ≤ begun + timing.budget p.action.operation := by
  obtain ⟨answer, harrivals⟩ := h.underway
  have hle := h.wired.now_le_arrivals _ (harrivals ▸ List.mem_cons_self)
  have hspan := Command.span_take_le settings.latency p.action.commands (index + 1)
  exact ⟨hle.trans (Nat.add_le_add_left hspan begun), h.wired.timely _ h.armed⟩

theorem Aloft.elapse (h : s.Aloft timing settings p begun index) {later : Nat}
    (hnone : s.next? later = none) :
    Aloft timing settings p begun index { s with now := later } := by
  refine ⟨h.wired.elapse hnone, h.index_lt, h.pending, ?_, h.armed, h.only⟩
  rw [arrivals_elapse (next?_eq_none hnone h.wired.ordered).1]
  exact h.underway

/-- A step of a service is a step of its circuit, and changes the radio as a turn does. -/
theorem Faces.turn (h : u.Faces timing settings event)
    (hstep : u.receiver.step (fun _ ↦ true) event = .ok reaction) :
    ∃ events history c turn, Circuit.Reaches timing settings events history c ∧
      c.receiver = u.receiver ∧ c.Offers event ∧ (u.arrivals.map Prod.snd).Perm (c.left event) ∧
      c.receiver.radio.step c.receiver.chip.accepts event = .ok turn ∧
      reaction.journal = turn.journal ∧ (u.handle event).receiver.radio = turn.radio ∧
      reaction.answers = (u.receiver.chip.serve turn.journal.sent).2 := by
  obtain ⟨events, history, c, hreached, hc, hoffers, hperm⟩ := h.circuit
  have hreceiver := (h.handle hstep).1.receiver
  obtain ⟨turn, hturn, rfl⟩ := Receiver.step_ok hstep
  rw [Circuit.accepts_eq, ← hc] at hturn
  exact ⟨events, history, c, turn, hreached, hc, hoffers, hperm, hturn, rfl, by rw [hreceiver], rfl⟩

/-- A transition that begins to drive the chip is in flight after the step. -/
theorem Faces.aloft (h : u.Faces timing settings event)
    (hstep : u.receiver.step (fun _ ↦ true) event = .ok reaction) {c : Controller}
    (hbegun : .begun p c ∈ reaction.journal) (hdrives : p.action.operation.drives = true) :
    (u.handle event).Aloft timing settings p u.now 0 ∧
      (∀ command ∈ p.action.commands, command.isRead = false) ∧
      Command.span settings.latency p.action.commands =
        p.action.cost timing settings.latency := by
  obtain ⟨hdone, hwired⟩ := h.handle hstep
  obtain ⟨events, history, d, turn, hreached, hd, hoffers, hperm, hturn, hjournal, hradio, -⟩ :=
    h.turn hstep
  have htiming : turn.radio.timing = timing := by
    obtain ⟨script, -, hrun⟩ := hreached.run_eq
    exact (Controller.run_guards (Controller.run_snoc hrun hturn)).budgets
  rw [hjournal] at hbegun
  obtain ⟨hleft, hpending, ⟨before, harmed⟩, hdelays, a, scanMode, plan, hbuilt, hplan⟩ :=
    Circuit.step_departs hreached.sound_or_failed hreached.steady hoffers hturn p c hbegun hdrives
  rw [htiming] at harmed hbuilt
  rw [← hradio] at hpending
  rw [hleft] at hperm
  have hnone : u.arrivals = [] := List.map_eq_nil_iff.mp (List.perm_nil.mp hperm)
  obtain ⟨hmem, honly⟩ := handle_armed hstep (hjournal.trans harmed)
  have hcommands : p.action.commands ≠ [] := hplan ▸ hbuilt.ne_nil_of_drives hdrives
  refine ⟨⟨hwired, List.length_pos_iff.mpr hcommands, hpending, ?_, hmem, honly⟩, ?_, ?_⟩
  · obtain ⟨first, rest, hcons⟩ := List.exists_cons_of_ne_nil hcommands
    rw [hcons, List.head?_cons, Option.bind_some, ← hjournal] at hdelays
    obtain ⟨answer, harrivals⟩ :=
      hdone.arrivals_single hnone hdelays (hwired.one_underway hpending)
    refine ⟨answer, ?_⟩
    rw [harrivals, h.latency, hcons]
    simp
  · rw [← hplan]
    exact hbuilt.reads_of_drives hdrives
  · rw [← hplan]
    exact hbuilt.span_eq_cost hdrives settings.latency

/-- A service whose radio has failed and whose queue is empty. -/
structure Dead (s : Service) : Prop where
  state : s.receiver.radio.state = .error
  pending : s.receiver.radio.pending = none
  queue : s.receiver.radio.queue = []
  published : s.published = s.receiver.radio.snapshot

/-- Whatever a dead service takes up, nothing changes to be seen. -/
theorem Dead.step (h : s.Dead) (htakes : s.Takes event u)
    (hstep : u.receiver.step (fun _ ↦ true) event = .ok reaction) :
    (u.handle event).Dead ∧ (u.handle event).published = s.published ∧
      (u.handle event).bulletins = s.bulletins := by
  obtain ⟨-, hreceiver, hpublished, hbulletins, -⟩ := htakes.holds
  have hstate : u.receiver.radio.state = .error := hreceiver ▸ h.state
  have hpending : u.receiver.radio.pending = none := hreceiver ▸ h.pending
  have hqueue : u.receiver.radio.queue = [] := hreceiver ▸ h.queue
  have hsteady : u.receiver.radio.Steady := fun p hp ↦ by simp [hpending] at hp
  obtain ⟨turn, hturn, rfl⟩ := Receiver.step_ok hstep
  have hdone := fulfils_handle hstep (Controller.step_spaced hsteady hturn)
  rw [Controller.step_of_error hstate hpending hqueue] at hturn
  cases hturn
  obtain ⟨hradio, -, heffects⟩ := Controller.refusal_views u.receiver.radio event
  have hquiet : (u.receiver.radio.refusal event).journal.notifications = [] := by
    rw [Journal.notifications, heffects]
    cases event.client? <;> rfl
  have hsame : (u.receiver.radio.refusal event).radio.snapshot = u.receiver.radio.snapshot := by
    rw [hradio]
    rfl
  refine ⟨⟨?_, ?_, ?_, ?_⟩, ?_, ?_⟩
  · rw [hdone.receiver, hradio]
    exact hstate
  · rw [hdone.receiver, hradio]
    exact hpending
  · rw [hdone.receiver, hradio]
    exact hqueue
  · rw [hdone.published, hdone.receiver]
  · rw [hdone.published, hsame, hreceiver, h.published]
  · rw [handle_bulletins hstep hquiet, hbulletins]

theorem Dead.runs (h : s.Dead) (hruns : s.Runs trace v) :
    v.Dead ∧ v.published = s.published ∧ v.bulletins = s.bulletins := by
  induction hruns with
  | refl => exact ⟨h, rfl, rfl⟩
  | elapse _ _ _ ih => exact ih ⟨h.state, h.pending, h.queue, h.published⟩
  | handle htakes hstep _ ih =>
      obtain ⟨hdead, hpublished, hbulletins⟩ := h.step htakes hstep
      obtain ⟨hlater, hpublished', hbulletins'⟩ := ih hdead
      exact ⟨hlater, hpublished'.trans hpublished, hbulletins'.trans hbulletins⟩

/-- The number of events by themselves that a service may take while the transition is in flight. -/
def leftover (p : Pending) (index : Nat) (s : Service) : Nat :=
  s.polls.length + (p.action.commands.length - index)

/-- A step that asks for nothing leaves what is on its way. -/
theorem handle_of_quiet (hstep : s.receiver.step (fun _ ↦ true) event = .ok reaction)
    (heffects : reaction.journal.effects = []) (hanswers : reaction.answers = []) :
    (s.handle event).agenda = s.agenda ∧ (s.handle event).arrivals = s.arrivals ∧
      (s.handle event).timeouts = s.timeouts ∧ (s.handle event).polls = s.polls := by
  have hhandle : s.handle event = s.publish reaction := by
    rw [handle_eq hstep, heffects, hanswers]
    rfl
  rw [hhandle]
  exact ⟨rfl, rfl, rfl, rfl⟩

theorem Takes.ne_ready (h : s.Takes event u) : event ≠ .ready := by
  cases h with
  | request => simp
  | due hnext => exact (next?_ne hnext).1

section

variable (h : s.Aloft timing settings p begun index) (htakes : s.Takes event u)
  (hstep : u.receiver.step (fun _ ↦ true) event = .ok reaction)

include h htakes hstep

/-- In the circuit that takes the event the transition is in flight. -/
theorem Aloft.turn :
    ∃ events history c turn, Circuit.Reaches timing settings events history c ∧
      c.receiver.radio.pending = some (p.reached index) ∧ c.Offers event ∧
      c.receiver.radio.step c.receiver.chip.accepts event = .ok turn ∧
      reaction.journal = turn.journal ∧ (u.handle event).receiver.radio = turn.radio ∧
      reaction.answers = (u.receiver.chip.serve turn.journal.sent).2 := by
  obtain ⟨events, history, c, turn, hreached, hc, hoffers, -, hviews⟩ :=
    (h.wired.takes htakes).turn hstep
  refine ⟨events, history, c, turn, hreached, ?_, hoffers, hviews⟩
  rw [hc, htakes.holds.receiver]
  exact h.pending

/-- What is neither the callback nor the timeout leaves the transition where it is. -/
theorem Aloft.step_other (hcallback : ∀ answer, event ≠ .callback answer)
    (htimeout : ∀ id, event ≠ .timeout id) :
    (u.handle event).Aloft timing settings p begun index ∧
      (∀ e ∈ reaction.journal, e.isTimed = false) ∧
      ((∃ r, event = .request r) ∨ leftover p index (u.handle event) < leftover p index s) := by
  have hfaces := h.wired.takes htakes
  obtain ⟨_, _, c, turn, hreached, hpending, -, hturn, hjournal, hradio, hanswers⟩ :=
    h.turn htakes hstep
  obtain ⟨hlater, heffects, hsent, huntimed⟩ := Controller.step_of_pending hreached.steady hpending
    hcallback (htimeout _) htakes.ne_ready hturn
  rw [hsent] at hanswers
  rw [← hjournal] at heffects huntimed
  obtain ⟨hagenda, harrivals, htimeouts, hpolls⟩ := handle_of_quiet hstep heffects hanswers
  obtain ⟨-, hsame⟩ := (htakes.arrivals h.wired.timely).resolve_left fun ⟨answer, hanswer, _⟩ ↦
    hcallback answer hanswer
  obtain ⟨-, harmed, honly⟩ := (htakes.timeouts h.wired.ordered h.wired.timely h.armed
    h.only).resolve_left fun hfirst ↦ htimeout _ hfirst.1
  refine ⟨⟨(hfaces.handle hstep).2, h.index_lt, hradio ▸ hlater, ?_, ?_, ?_⟩, huntimed, ?_⟩
  · rw [harrivals, hsame]
    exact h.underway
  · rw [hagenda]
    exact harmed
  · rw [htimeouts]
    exact honly
  · cases event with
    | ready => exact absurd rfl htakes.ne_ready
    | request r => exact .inl ⟨r, rfl⟩
    | callback answer => exact absurd rfl (hcallback answer)
    | timeout id => exact absurd rfl (htimeout id)
    | pollDue generation =>
        rw [leftover, leftover, hpolls]
        exact .inr (Nat.add_lt_add_right (htakes.polls.2 generation rfl) _)

/-- The callback lets the transition go on to its next command, or be done. -/
theorem Aloft.step_callback (hreads : ∀ command ∈ p.action.commands, command.isRead = false)
    {answer : Callback} (hevent : event = .callback answer) :
    (u.handle event).Aloft timing settings p begun (index + 1) ∧
      (∀ e ∈ reaction.journal, e.isTimed = false) ∧
      leftover p (index + 1) (u.handle event) < leftover p index s ∨
    u.now = begun + Command.span settings.latency p.action.commands ∧
      u.now ≤ begun + timing.budget p.action.operation ∧
      reaction.journal.Resolves p .done p.destination := by
  have hfaces := h.wired.takes htakes
  obtain ⟨hdone, hwired⟩ := hfaces.handle hstep
  obtain ⟨_, _, c, turn, hreached, hpending, hoffers, hturn, hjournal, hradio, -⟩ :=
    h.turn htakes hstep
  have hsound := hreached.sound_or_failed.resolve_right fun hfailed ↦ by
    cases hpending.symm.trans hfailed.pending
  -- The callback that is taken is the one that was on its way.
  obtain ⟨other, hother⟩ := h.underway
  obtain ⟨hnow, hnone⟩ : u.now = begun +
      Command.span settings.latency (p.action.commands.take (index + 1)) ∧ u.arrivals = [] := by
    obtain ⟨_, -, harrivals⟩ := (htakes.arrivals h.wired.timely).resolve_right fun hno ↦
      hno.1 answer hevent
    rw [hother, List.cons.injEq, Prod.mk.injEq] at harrivals
    exact ⟨harrivals.1.1.symm, harrivals.2.symm⟩
  obtain ⟨-, harmed, honly⟩ := (htakes.timeouts h.wired.ordered h.wired.timely h.armed
    h.only).resolve_left fun hfirst ↦ by cases hevent.symm.trans hfirst.1
  subst hevent
  rcases hsound.step_answer hreached.steady hpending hreads hoffers hturn with
    ⟨next, hnext, hlater, hdelays, hnopolls, huntimed⟩ | ⟨hlast, hresolves⟩
  · rw [← hjournal] at hdelays hnopolls huntimed
    rw [← hradio] at hlater
    have hunset := Journal.setsTimeout_of_untimed huntimed
    have hindex := (List.getElem?_eq_some_iff.mp hnext).1
    refine .inl ⟨⟨hwired, hindex, hlater, ?_, ?_, ?_⟩, huntimed, ?_⟩
    · obtain ⟨later, harrivals⟩ :=
        hdone.arrivals_single hnone hdelays (hwired.one_underway hlater)
      refine ⟨later, ?_⟩
      rw [harrivals, hnow, hfaces.latency, Command.span_take_succ settings.latency hnext,
        Nat.add_assoc]
    · exact mem_agenda_handle hstep hunset harmed
    · have hperm := hdone.timeouts_of_untimed hunset
      rw [honly] at hperm
      exact List.perm_singleton.mp hperm
    · have hlength := hdone.polls.length_eq
      have hpolls := htakes.polls.1
      rw [hnopolls, List.map_nil, List.nil_append] at hlength
      rw [leftover, leftover, hlength]
      omega
  · refine .inr ⟨?_, ?_, hjournal ▸ hresolves⟩
    · rw [hnow, ← hlast, List.take_length]
    · exact hfaces.timely _ harmed

/-- The timeout ends the transition in the error state. -/
theorem Aloft.step_timeout {id : Nat} (hevent : event = .timeout id) :
    u.now = begun + timing.budget p.action.operation ∧
      u.now ≤ begun + Command.span settings.latency p.action.commands ∧
      reaction.journal.Resolves p .timedOut .error ∧ (u.handle event).Dead := by
  have hwired := ((h.wired.takes htakes).handle hstep).2
  obtain ⟨_, _, c, turn, hreached, hpending, -, hturn, hjournal, hradio, -⟩ := h.turn htakes hstep
  obtain ⟨rfl, hnow, hfirst⟩ := (htakes.timeouts h.wired.ordered h.wired.timely h.armed
    h.only).resolve_right fun hother ↦ hother.1 id hevent
  obtain ⟨hstate, hnone, hqueue, hresolves⟩ :=
    Controller.step_expires (p := p.reached index) hreached.steady hpending hturn
  refine ⟨hnow, ?_, ?_, ?_⟩
  · obtain ⟨answer, harrivals⟩ := h.underway
    have hle := hfirst _ (harrivals ▸ List.mem_cons_self)
    have hspan := Command.span_take_le settings.latency p.action.commands (index + 1)
    rw [hnow]
    exact hle.trans (Nat.add_le_add_left hspan begun)
  · rw [hjournal]
    exact ⟨hresolves.resolved, hresolves.reported⟩
  · rw [← hradio] at hstate hnone hqueue
    exact ⟨hstate, hnone, hqueue, hwired.published⟩

/-- A step leaves the transition in flight, or ends it when its commands are through or when its
budget has run out. -/
theorem Aloft.step (hreads : ∀ command ∈ p.action.commands, command.isRead = false) :
    (∃ next, (u.handle event).Aloft timing settings p begun next ∧
      (∀ e ∈ reaction.journal, e.isTimed = false) ∧
      ((∃ r, event = .request r) ∨ leftover p next (u.handle event) < leftover p index s)) ∨
    (Command.span settings.latency p.action.commands ≤ timing.budget p.action.operation ∧
      u.now = begun + Command.span settings.latency p.action.commands ∧
      reaction.journal.Resolves p .done p.destination) ∨
    timing.budget p.action.operation ≤ Command.span settings.latency p.action.commands ∧
      u.now = begun + timing.budget p.action.operation ∧
      reaction.journal.Resolves p .timedOut .error ∧ (u.handle event).Dead := by
  by_cases hcallback : ∃ answer, event = .callback answer
  · obtain ⟨answer, hanswer⟩ := hcallback
    rcases h.step_callback htakes hstep hreads hanswer with
      ⟨hlater, huntimed, hless⟩ | ⟨hnow, hle, hresolves⟩
    · exact .inl ⟨index + 1, hlater, huntimed, .inr hless⟩
    · exact .inr (.inl ⟨by omega, hnow, hresolves⟩)
  · by_cases htimeout : ∃ id, event = .timeout id
    · obtain ⟨id, hid⟩ := htimeout
      obtain ⟨hnow, hle, hends⟩ := h.step_timeout htakes hstep hid
      exact .inr (.inr ⟨by omega, hnow, hends⟩)
    · rw [not_exists] at hcallback htimeout
      exact .inl ⟨index, h.step_other htakes hstep hcallback htimeout⟩

end

/-! ## Runs -/

/-- On every run the transition is in flight or has ended on time. -/
theorem Runs.aloft (hruns : s.Runs trace v) (h : s.Aloft timing settings p begun index)
    (hreads : ∀ command ∈ p.action.commands, command.isRead = false) :
    ((∃ later, v.Aloft timing settings p begun later) ∧
      ∀ x ∈ trace, ∀ e ∈ x.2, e.isTimed = false) ∨
    trace.Settles p begun (Command.span settings.latency p.action.commands)
        (timing.budget p.action.operation) ∧
      (Command.span settings.latency p.action.commands ≤ timing.budget p.action.operation ∨
        v.Dead) := by
  induction hruns generalizing index with
  | refl => exact .inl ⟨⟨index, h⟩, List.forall_mem_nil _⟩
  | elapse _ hnone _ ih => exact ih (h.elapse hnone)
  | @handle s u v event reaction trace htakes hstep hruns ih =>
      rcases h.step htakes hstep hreads with
        ⟨next, hlater, huntimed, -⟩ | ⟨hle, hnow, hresolves⟩ | ⟨hle, hnow, hresolves, hdead⟩
      · refine (ih hlater).imp ?_ ?_
        · exact fun ⟨hstill, hrest⟩ ↦ ⟨hstill, List.forall_mem_cons.mpr ⟨huntimed, hrest⟩⟩
        · exact And.imp_left fun hsettles ↦ hsettles.cons huntimed u.now
      · exact .inr ⟨.done hle (hnow ▸ Trace.ends_of_resolves hresolves trace), .inl hle⟩
      · exact .inr ⟨.timedOut hle (hnow ▸ Trace.ends_of_resolves hresolves trace),
          .inr (hdead.runs hruns).1⟩

/-- While the transition is in flight, something comes due before it ends. -/
theorem Aloft.exists_next (h : s.Aloft timing settings p begun index)
    (hlimit : begun + min (Command.span settings.latency p.action.commands)
      (timing.budget p.action.operation) ≤ limit) :
    ∃ event u, s.next? limit = some (event, u) := by
  cases hnext : s.next? limit with
  | some x => exact ⟨x.1, x.2, rfl⟩
  | none =>
      obtain ⟨hinbox, hlater⟩ := next?_eq_none hnext h.wired.ordered
      obtain ⟨answer, harrivals⟩ := h.underway
      have hmem : (begun + Command.span settings.latency (p.action.commands.take (index + 1)),
          answer) ∈ s.arrivals := harrivals ▸ List.mem_cons_self
      rw [arrivals, hinbox, List.map_nil, List.nil_append] at hmem
      obtain ⟨a, ha, harrival⟩ := List.mem_filterMap.mp hmem
      have hcallback := hlater a ha
      rw [← Appointment.due_of_arrival? harrival] at hcallback
      have htimeout : limit < begun + timing.budget p.action.operation := hlater _ h.armed
      have hspan := Command.span_take_le settings.latency p.action.commands (index + 1)
      omega

/-- Left to itself, a service goes on until the transition has ended. -/
theorem Aloft.comes (h : s.Aloft timing settings p begun index)
    (hreads : ∀ command ∈ p.action.commands, command.isRead = false)
    (hrange : s.receiver.radio.InRange)
    (hlimit : begun + min (Command.span settings.latency p.action.commands)
      (timing.budget p.action.operation) ≤ limit) (fuel : Nat) (hfuel : leftover p index s ≤ fuel) :
    ∃ trace, s.Runs trace (s.runUntil (fun _ ↦ false) limit fuel) ∧
      trace.Settles p begun (Command.span settings.latency p.action.commands)
        (timing.budget p.action.operation) := by
  induction fuel generalizing s index with
  | zero =>
      have hindex := h.index_lt
      rw [leftover] at hfuel
      omega
  | succ fuel ih =>
      obtain ⟨event, u, hnext⟩ := h.exists_next hlimit
      have htakes : s.Takes event u := .due hnext
      have hfaces := h.wired.takes htakes
      obtain ⟨reaction, hstep, hrange⟩ :=
        hfaces.exists_step (htakes.holds.receiver ▸ hrange) (next?_inRange hnext)
      simp only [runUntil, Bool.and_false, Bool.false_eq_true, if_false, hnext]
      rcases h.step htakes hstep hreads with
        ⟨later, hlater, huntimed, hless⟩ | ⟨hle, hnow, hresolves⟩ | ⟨hle, hnow, hresolves, -⟩
      · have hless := hless.resolve_left (not_exists.mpr (next?_ne hnext).2)
        obtain ⟨trace, hruns, hsettles⟩ := ih hlater hrange (by omega)
        exact ⟨_, .handle htakes hstep hruns, hsettles.cons huntimed u.now⟩
      all_goals
        obtain ⟨trace, hruns⟩ := exists_runs_runUntil (hfaces.handle hstep).2 hrange
          (fun _ ↦ false) limit fuel
        refine ⟨_, .handle htakes hstep hruns, ?_⟩
      · exact .done hle (hnow ▸ Trace.ends_of_resolves hresolves trace)
      · exact .timedOut hle (hnow ▸ Trace.ends_of_resolves hresolves trace)

/-! ## Deadlines -/

/-- A transition in flight ends at a time, with an outcome and in a state. -/
structure ResolvesAt (s : Service) (p : Pending) (time : Nat) (outcome : Outcome)
    (state : RadioState) : Prop where
  /-- Until it has ended it is in flight, and the time has not passed. -/
  onTime : ∀ trace v, s.Runs trace v →
    (∃ q, v.receiver.radio.pending = some q ∧ q.id = p.id) ∧ v.now ≤ time ∨
      trace.Ends p time outcome state
  /-- A service that is left to itself brings it to its end. Bands that are in range rule out that a
  fault in a step for somebody else ends the service before. -/
  comes : ∀ trace v fuel, s.Runs trace v → v.receiver.radio.InRange →
    v.polls.length + p.action.commands.length ≤ fuel →
      ∃ more, v.Runs more (v.runUntil (fun _ ↦ false) time fuel) ∧
        Trace.Ends (trace ++ more) p time outcome state

theorem Aloft.resolvesAt (h : s.Aloft timing settings p begun index)
    (hreads : ∀ command ∈ p.action.commands, command.isRead = false) {time : Nat}
    {outcome : Outcome} {state : RadioState}
    (htime : time = begun + min (Command.span settings.latency p.action.commands)
      (timing.budget p.action.operation))
    (hends : ∀ trace : Trace, trace.Settles p begun
      (Command.span settings.latency p.action.commands) (timing.budget p.action.operation) →
        trace.Ends p time outcome state) : s.ResolvesAt p time outcome state := by
  constructor
  · intro trace v hruns
    rcases hruns.aloft h hreads with ⟨⟨later, hv⟩, -⟩ | ⟨hsettles, -⟩
    · obtain ⟨hspan, hbudget⟩ := hv.now_le
      exact .inl ⟨⟨_, hv.pending, rfl⟩, by omega⟩
    · exact .inr (hends trace hsettles)
  · intro trace v fuel hruns hrange hfuel
    rcases hruns.aloft h hreads with ⟨⟨later, hv⟩, hnone⟩ | ⟨hsettles, -⟩
    · obtain ⟨more, hmore, hsettles⟩ :=
        hv.comes hreads hrange htime.ge fuel (by rw [leftover]; omega)
      exact ⟨more, hmore, hends _ (hsettles.after hnone)⟩
    · obtain ⟨more, hmore⟩ := exists_runs_runUntil (hruns.wired h.wired) hrange (fun _ ↦ false)
        time fuel
      exact ⟨more, hmore, hends _ (hsettles.append more)⟩

/-- A transition that drives the chip is done exactly when all its commands are, if that is within
its budget; the budget is for all of them together. Otherwise it times out exactly when its budget
has run out, and leaves the radio in the error state. After that nothing that comes changes what is
published or brings a notification. -/
theorem transition_resolves_on_time {past : Trace}
    (hpast : (opened timing settings).Runs past s) (htakes : s.Takes event u)
    (hstep : u.receiver.step (fun _ ↦ true) event = .ok reaction) {c : Controller}
    (hbegun : .begun p c ∈ reaction.journal) (hdrives : p.action.operation.drives = true) :
    (p.action.cost timing settings.latency < timing.budget p.action.operation →
      (u.handle event).ResolvesAt p (u.now + p.action.cost timing settings.latency) .done
        p.destination) ∧
    (timing.budget p.action.operation < p.action.cost timing settings.latency →
      (u.handle event).ResolvesAt p (u.now + timing.budget p.action.operation) .timedOut .error ∧
      ∀ trace v, (u.handle event).Runs trace v →
        trace.Ends p (u.now + timing.budget p.action.operation) .timedOut .error →
          v.published.state = .error ∧
          ∀ more w, v.Runs more w → w.published = v.published ∧ w.bulletins = v.bulletins) := by
  have hfaces := (hpast.wired (wired_opened timing settings)).takes htakes
  obtain ⟨haloft, hreads, hcost⟩ := hfaces.aloft hstep hbegun hdrives
  rw [← hcost]
  refine ⟨fun hlt ↦ ?_, fun hlt ↦ ⟨?_, fun trace v hruns hended ↦ ?_⟩⟩
  · refine haloft.resolvesAt hreads (by omega) fun trace hsettles ↦ ?_
    cases hsettles with
    | done _ hends => exact hends
    | timedOut hle => omega
  · refine haloft.resolvesAt hreads (by omega) fun trace hsettles ↦ ?_
    cases hsettles with
    | done hle => omega
    | timedOut _ hends => exact hends
  · rcases hruns.aloft haloft hreads with ⟨-, hnone⟩ | ⟨-, hle | hdead⟩
    · exact absurd hended (Trace.not_ends hnone)
    · omega
    · refine ⟨?_, fun more w hmore ↦ (hdead.runs hmore).2⟩
      rw [hdead.published]
      exact hdead.state

/-- A start that is requested first of all. -/
def firstStart : Request := ⟨some 1, .start .europeUs⟩

theorem opened_begins_start (timing : Timing) (settings : ChipSettings) :
    ∃ reaction p c,
      ((opened timing settings).expecting (.request firstStart) true).receiver.step (fun _ ↦ true)
        (.request firstStart) = .ok reaction ∧
      .begun p c ∈ reaction.journal ∧ p.action.operation = .start .europeUs ∧
      p.destination = .started ∧
      p.action.cost timing settings.latency = settings.latency * 4 + timing.settleDelay :=
  ⟨_, _, _, rfl, List.mem_cons_of_mem _ (List.mem_cons_of_mem _ List.mem_cons_self), rfl, rfl, rfl⟩

/-- A start on a chip with a latency of 2 ms is done after 508 ms. With a latency of 100 ms it would
take 900 ms; on a budget of 300 ms it times out, and its answers come too late. -/
theorem start_is_done_or_times_out :
    (∃ p trace v, p.action.operation = .start .europeUs ∧
      ((opened {} { latency := 2 }).post firstStart).Runs trace v ∧
      trace.Ends p 508 .done .started) ∧
    ∃ p trace v, p.action.operation = .start .europeUs ∧
      ((opened { startTimeout := 300 } { latency := 100 }).post firstStart).Runs trace v ∧
      trace.Ends p 300 .timedOut .error ∧ v.published.state = .error ∧
      ∀ more w, v.Runs more w → w.published = v.published ∧ w.bulletins = v.bulletins := by
  have hrange : ∀ timing settings,
      ((opened timing settings).post firstStart).receiver.radio.InRange := by
    intro timing settings
    have hfaces := (wired_opened timing settings).takes (.request firstStart true)
    obtain ⟨-, -, hrange⟩ := hfaces.exists_step (inRange_opened timing settings) (by
      simp [Event.InRange, firstStart, Operation.InRange, Band.InRange, Band.europeUs, Word.limit,
        UInt32.size])
    exact hrange
  constructor
  · obtain ⟨reaction, p, c, hstep, hbegun, hoperation, hdestination, hcost⟩ :=
      opened_begins_start {} { latency := 2 }
    obtain ⟨hdone, -⟩ := transition_resolves_on_time (.refl _) (.request firstStart true) hstep
      hbegun (by rw [hoperation]; rfl)
    obtain ⟨more, hruns, hends⟩ :=
      (hdone (by rw [hcost, hoperation]; decide)).comes [] _ _ (.refl _) (hrange _ _) le_rfl
    rw [hcost, hdestination] at hends
    exact ⟨p, more, _, hoperation, hruns, hends⟩
  · obtain ⟨reaction, p, c, hstep, hbegun, hoperation, hdestination, hcost⟩ :=
      opened_begins_start { startTimeout := 300 } { latency := 100 }
    obtain ⟨-, hlate⟩ := transition_resolves_on_time (.refl _) (.request firstStart true) hstep
      hbegun (by rw [hoperation]; rfl)
    obtain ⟨htimedOut, hinert⟩ := hlate (by rw [hcost, hoperation]; decide)
    obtain ⟨more, hruns, hends⟩ := htimedOut.comes [] _ _ (.refl _) (hrange _ _) le_rfl
    obtain ⟨hstate, hafter⟩ := hinert more _ hruns hends
    rw [hoperation] at hends
    exact ⟨p, more, _, hoperation, hruns, hends, hstate, hafter⟩

end Service

end FmTuner
