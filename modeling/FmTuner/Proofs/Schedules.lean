import FmTuner.Proofs.Agendas
import FmTuner.Proofs.Scenes

/-!
# Services on schedule

A service works on a scene if its receiver shows the scene and whatever has to happen next is on its
way. `Service.Stages` says so between two events and `Service.Poised` while one is taken;
`Poised.handle` is the step from the one to the other. The chip answers so early that no transition
runs out of its budget.
-/

namespace FmTuner

/-! ## How long commands take -/

namespace Command

/-- The time that a command takes: a delay elapses, and all others are answered after a latency. -/
def duration (latency : Nat) (command : Command) : Nat := command.delayMs.getD latency

/-- The time that commands take one after another. -/
def span (latency : Nat) : List Command → Nat
  | [] => 0
  | command :: rest => command.duration latency + span latency rest

@[simp] theorem span_nil (latency : Nat) : span latency [] = 0 := rfl

@[simp] theorem span_cons (latency : Nat) (command : Command) (rest : List Command) :
    span latency (command :: rest) = command.duration latency + span latency rest := rfl

end Command

/-- With answers after a latency, the commands of every operation are carried out within its budget,
except perhaps those of a reset. -/
structure Timing.Covers (timing : Timing) (latency : Nat) : Prop where
  start : 4 * latency + timing.settleDelay < timing.startTimeout
  property : 3 * latency < timing.propertyTimeout

theorem Plan.Built.span_lt {timing : Timing} {a : Attributes} {scanMode : Option ScanMode}
    {operation : Operation} {plan : Plan} (h : Plan.Built timing a scanMode operation plan)
    {latency : Nat} (hcovers : timing.Covers latency) (hreset : operation ≠ .reset) :
    Command.span latency plan.action.commands < timing.budget operation := by
  obtain ⟨hstart, hproperty⟩ := hcovers
  cases h with
  | start b =>
      simp only [Plan.ofCommands, Plan.startCommands, Command.span_cons, Command.span_nil,
        Command.duration, Command.delayMs, Command.writeByte, Option.getD_none, Option.getD_some,
        Timing.budget]
      omega
  | reset => exact absurd rfl hreset
  | scanDone mode aborted =>
      cases a.frequency <;>
        simp only [Plan.ofCommands, Plan.tuneCommands, Option.map_none, Option.map_some,
          Option.getD_none, Option.getD_some, Command.span_cons, Command.span_nil,
          Command.duration, Command.delayMs, Command.writeByte, Command.writeFrequency,
          Timing.budget] <;> omega
  | _ =>
      simp only [Plan.ofCommands, Plan.tuneCommands, Plan.searchCommands, Command.span_cons,
        Command.span_nil, Command.duration, Command.delayMs, Command.writeByte,
        Command.writeFrequency, Command.pollStatus, Command.readFrequency, Command.readSignal,
        Option.getD_none, Timing.budget]
      omega

/-! ## Steps of scenes -/

namespace Scene

/-- Who waits for the outcome of the transition in flight. -/
def asked (s : Scene) : List RequestId := (s.flight.bind fun f ↦ f.request.id).toList

/-- The transition in flight will be over within its budget. -/
def InTime (timing : Timing) (latency : Nat) (s : Scene) : Prop :=
  ∀ f, s.flight = some f →
    Command.span latency (f.waiting :: f.left) < timing.budget f.request.operation

/-- What a step of a scene means to those who wait for outcomes and callbacks. `asked` are those who
waited before. -/
structure Steps (timing : Timing) (latency : Nat) (asked : List RequestId) (s u : Scene) :
    Prop where
  reports : ∃ reports, u.ledger.reports = s.ledger.reports ++ reports ∧
    asked = reports.map Prod.fst ++ u.asked
  endings : u.ledger.endings.length ≤ s.ledger.endings.length + 2
  flight : ∀ g, u.flight = some g →
    g.answered = [] ∨ ∃ f, s.flight = some f ∧ f.left = g.waiting :: g.left
  inTime : u.InTime timing latency

variable {timing : Timing} {latency : Nat} {s u : Scene}

theorem asked_of_none (h : s.flight = none) : s.asked = [] := by rw [asked, h]; rfl

theorem Begins.steps {r : Request} (h : s.Begins timing r u) (hcovers : timing.Covers latency)
    (hreset : r.operation ≠ .reset) :
    (∃ reports, u.ledger.reports = s.ledger.reports ++ reports ∧
      r.id.toList = reports.map Prod.fst ++ u.asked) ∧
    u.ledger.endings.length ≤ s.ledger.endings.length + 1 ∧
    (∀ g, u.flight = some g → g.answered = []) ∧ u.InTime timing latency := by
  cases h with
  | issue hroute hplan hcommands hissues =>
      have hspan := (Plan.built_of_build hplan).span_lt hcovers hreset
      rw [hcommands] at hspan
      refine ⟨⟨[], by simp [reported], rfl⟩, by simp [reported], ?_, ?_⟩
      · rintro g ⟨⟩
        rfl
      · rintro g ⟨⟩
        exact hspan
  | flash hroute hplan hcommands hhook =>
      refine ⟨⟨r.id.toList.map (·, .done), ?_, ?_⟩, ?_, ?_, ?_⟩
      · simp [settled, reported, Status.outcome]
      · simp [asked, settled, Function.comp_def]
      · simp [settled, reported]
      · simp [settled]
      · simp [InTime, settled]

theorem Ends.reports {followups : List Operation} (h : s.Ends u followups) :
    (∃ reports, u.ledger.reports = s.ledger.reports ++ reports ∧
      s.asked = reports.map Prod.fst) ∧
    u.ledger.endings.length = s.ledger.endings.length + 1 ∧ u.flight = none ∧
    ∀ operation ∈ followups, operation ≠ .reset := by
  have hfollows : ∀ {f : Flight} {status : Status} {commands : List Command} {a : Attributes},
      f.hook.apply status commands s.attributes = .ok (a, followups) →
        ∀ operation ∈ followups, operation ≠ .reset := by
    intro f status commands a hhook operation hmem
    rcases Hook.followups_of_apply hhook with rfl | ⟨next, rfl, hnext⟩
    · cases hmem
    · rw [List.mem_singleton.mp hmem]
      cases hnext <;> simp
  cases h with
  | @stopped f _ verdict _ _ hflight hcomplete hverdict hhook =>
      refine ⟨⟨f.request.id.toList.map (·, verdict.status.outcome), by simp [settled], ?_⟩,
        by simp [settled], rfl, hfollows hhook⟩
      simp [asked, hflight, Function.comp_def]
  | @finished f _ _ _ hflight hcomplete hlast hhook =>
      refine ⟨⟨f.request.id.toList.map (·, Status.outcome .done), by simp [settled], ?_⟩,
        by simp [settled], rfl, hfollows hhook⟩
      simp [asked, hflight, Function.comp_def]

theorem Delivers.steps (h : s.Delivers timing u) (hcovers : timing.Covers latency)
    (htime : s.InTime timing latency) : s.Steps timing latency s.asked u := by
  cases h with
  | @advance f _ next left _ _ hflight hcomplete hleft hissues =>
      have hspan := htime f hflight
      rw [hleft, Command.span_cons] at hspan
      refine ⟨⟨[], by simp, by simp [asked, hflight]⟩, Nat.le_add_right _ _, ?_, ?_⟩
      · rintro g ⟨⟩
        exact .inr ⟨f, hflight, hleft⟩
      · rintro g ⟨⟩
        exact (Nat.le_add_left _ _).trans_lt hspan
  | rest hends =>
      obtain ⟨⟨reports, hreports, hasked⟩, hendings, hnone, -⟩ := hends.reports
      refine ⟨⟨reports, hreports, ?_⟩, by omega, by simp [hnone], by simp [InTime, hnone]⟩
      rw [hasked, asked_of_none hnone, List.append_nil]
  | follow hends hbegins =>
      obtain ⟨⟨reports, hreports, hasked⟩, hendings, hnone, hreset⟩ := hends.reports
      obtain ⟨⟨more, hmore, hnobody⟩, hfew, hnew, hlater⟩ :=
        hbegins.steps hcovers (hreset _ List.mem_cons_self)
      refine ⟨⟨reports ++ more, ?_, ?_⟩, by omega, fun g hg ↦ .inl (hnew g hg), hlater⟩
      · rw [hmore, hreports, List.append_assoc]
      · rw [List.map_append, List.append_assoc, ← hnobody, hasked]
        exact (List.append_nil _).symm
  | poll hflight hstate hmode hbegins =>
      obtain ⟨hreports, hfew, hnew, hlater⟩ := hbegins.steps hcovers (by simp)
      refine ⟨?_, by omega, fun g hg ↦ .inl (hnew g hg), hlater⟩
      rw [asked_of_none hflight]
      exact hreports

end Scene

theorem Scene.Delivers.scanning_of_none {timing : Timing} {s u : Scene} (h : s.Delivers timing u)
    (hflight : s.flight = none) : s.state = .scanning := by
  cases h with
  | advance hsome => cases hflight.symm.trans hsome
  | rest hends | follow hends =>
      cases hends with
      | stopped hsome | finished hsome => cases hflight.symm.trans hsome
  | poll _ hstate => exact hstate

/-! ## Services on a scene -/

/-- The longest time that anything which a step has begun is on its way. -/
def Timing.longest (t : Timing) : Nat :=
  t.startTimeout + t.resetTimeout + t.propertyTimeout + t.pollInterval

theorem Timing.budget_le_longest (t : Timing) (operation : Operation) :
    t.budget operation ≤ t.longest := by
  cases operation <;> simp only [budget, longest] <;> omega

/-- A receiver with the answer on its way that a scene shows. -/
def Scene.circuit (s : Scene) (receiver : Receiver) : Circuit where
  receiver := receiver
  inFlight := (s.flight.map Flight.answer).toList

/-- The timeout armed is that of the transition in flight. -/
theorem Scene.Shown.guarded {timing : Timing} {settings : ChipSettings} {s : Scene}
    {history : Journal} {c : Circuit} (h : s.Shown timing settings history c) :
    history.timeout.map Prod.snd = s.flight.map fun f ↦ timing.budget f.request.operation := by
  obtain ⟨events, hreached⟩ := h.reached
  obtain ⟨script, -, hrun⟩ := hreached.run_eq
  have htimeout : history.timeout = c.receiver.radio.pending.map fun p ↦ p.timeout timing :=
    (Controller.run_guards hrun).timeout
  rw [htimeout, Option.map_map]
  cases hflight : s.flight with
  | none => rw [h.radio.pending_none hflight]; rfl
  | some f =>
      obtain ⟨p, hpending, haction, -⟩ := h.radio.pending_some hflight
      rw [hpending]
      simp [Pending.timeout, haction, Flight.action]

theorem Circuit.reaction_of_step {c d : Circuit} {event : Event} {journal : Journal}
    (h : c.step event = .ok (d, journal)) :
    ∃ reaction, c.receiver.step (fun _ ↦ true) event = .ok reaction ∧
      d.receiver = reaction.receiver ∧ journal = reaction.journal ∧
      d.inFlight = c.left event ++ reaction.answers ++ reaction.journal.elapses := by
  rw [step] at h
  split at h
  next => cases h
  next reaction hreaction =>
    cases h
    exact ⟨reaction, hreaction, rfl, rfl, rfl⟩

/-- What a step has asked for arrives when the command that waits is through. -/
theorem Scene.arrivals_of_arranges {s : Scene} {j : Journal} {answers : List Callback}
    (hdelays : j.delays = (s.flight.bind fun f ↦ f.waiting.delayMs).toList)
    (hanswers : answers ++ j.elapses = (s.flight.map Flight.answer).toList) (now latency : Nat) :
    j.delays.map (now + ·, .delayElapsed) ++ answers.map (now + latency, ·) =
      (s.flight.map fun f ↦ (now + f.waiting.duration latency, f.answer)).toList := by
  rw [Journal.elapses_eq, hdelays] at hanswers
  rw [hdelays]
  cases hflight : s.flight with
  | none =>
      have hnone : answers = [] := by simpa [hflight] using hanswers
      simp [hnone]
  | some f =>
      cases hdelay : f.waiting.delayMs with
      | none =>
          have hanswer : answers = [f.answer] := by simpa [hflight, hdelay] using hanswers
          simp [hdelay, hanswer, Command.duration]
      | some ms =>
          have hanswer : answers = [] ∧ .delayElapsed = f.answer := by
            simpa [hflight, hdelay, List.append_eq_singleton_iff] using hanswers
          simp [hdelay, hanswer.1, hanswer.2, Command.duration]

namespace Service

/-- Whatever is on its way, timeouts apart, comes due by a time. -/
structure Within (s : Service) (horizon : Nat) : Prop where
  now : s.now ≤ horizon
  arrivals : ∀ x ∈ s.arrivals, x.1 ≤ horizon
  polls : ∀ x ∈ s.polls, x.1 ≤ horizon

theorem Within.mono {s : Service} {m n : Nat} (h : s.Within m) (hle : m ≤ n) : s.Within n :=
  ⟨h.now.trans hle, fun x hx ↦ (h.arrivals x hx).trans hle, fun x hx ↦ (h.polls x hx).trans hle⟩

/-- A service at work whose receiver shows a scene. -/
structure Works (timing : Timing) (settings : ChipSettings) (scene : Scene) (history : Journal)
    (s : Service) : Prop where
  ended : s.ended = none
  latency : s.latency = settings.latency
  shown : scene.Shown timing settings history (scene.circuit s.receiver)
  ordered : s.agenda.Ordered
  answered : s.answered = scene.ledger.reports.reverse
  untimed : history.timeout = none → s.timeouts = []

/-- A service that has just taken an event which it is going to handle: no callback is underway.
`asked` are those who wait for outcomes. -/
structure Poised (timing : Timing) (settings : ChipSettings) (scene : Scene) (history : Journal)
    (asked : List RequestId) (s : Service) : Prop
    extends s.Works timing settings scene history where
  waiting : s.waiting = asked
  arrivals : s.arrivals = []
  slack : ∀ f, scene.flight = some f → ∀ due ∈ s.timeouts,
    s.now + Command.span settings.latency f.left < due

/-- A service between two events. -/
structure Stages (timing : Timing) (settings : ChipSettings) (scene : Scene) (history : Journal)
    (s : Service) : Prop extends s.Works timing settings scene history where
  published : s.published = s.receiver.radio.snapshot
  waiting : s.waiting = scene.asked
  inTime : scene.InTime timing settings.latency
  quiet : scene.flight = none → s.arrivals = []
  /-- The answer that the transition in flight waits for arrives so early that even the commands
  left are through before a timeout is due. -/
  underway : ∀ f, scene.flight = some f → ∃ arrival, s.arrivals = [(arrival, f.answer)] ∧
    s.now ≤ arrival ∧
    ∀ due ∈ s.timeouts, arrival + Command.span settings.latency f.left < due
  scheduled : scene.flight = none → scene.state = .scanning →
    ∃ due, (due, s.receiver.radio.generation) ∈ s.polls

/-- A service between two events at a scene. Whatever is on its way, timeouts apart, comes due by a
time, and among it are no more than a number of polls. -/
structure At (timing : Timing) (settings : ChipSettings) (scene : Scene) (horizon polls : Nat)
    (s : Service) : Prop where
  stages : ∃ history, s.Stages timing settings scene history
  within : s.Within horizon
  few : s.polls.length ≤ polls

variable {timing : Timing} {settings : ChipSettings} {scene u : Scene} {history : Journal}
  {asked : List RequestId} {s v : Service} {event : Event} {reaction : Receiver.Reaction}
  {horizon polls pause : Nat}

theorem At.mono (h : s.At timing settings scene horizon polls) {later more : Nat}
    (htime : horizon ≤ later) (hpolls : polls ≤ more) : s.At timing settings scene later more :=
  ⟨h.stages, h.within.mono htime, h.few.trans hpolls⟩

theorem Fulfils.timeouts_after (h : s.Fulfils reaction pause v) (history : Journal) :
    ((∀ e ∈ reaction.journal.effects, e.setsTimeout = false) ∧ v.timeouts.Perm s.timeouts ∧
        (history ++ reaction.journal).timeout = history.timeout) ∨
      v.timeouts.Perm
        ((history ++ reaction.journal).timeout.toList.map (s.now + ·.2)) := by
  rw [Journal.timeout_append]
  rcases h.timeouts with ⟨hnone, hperm⟩ | hperm
  · exact .inl ⟨hnone, hperm, Effect.foldl_arm hnone _⟩
  · exact .inr (hperm history.timeout)

theorem Fulfils.untimed_after (h : s.Fulfils reaction pause v)
    (huntimed : history.timeout = none → s.timeouts = [])
    (hnone : (history ++ reaction.journal).timeout = none) : v.timeouts = [] := by
  rcases h.timeouts_after history with ⟨-, hperm, hsame⟩ | hperm
  · rw [huntimed (hsame ▸ hnone)] at hperm
    exact List.perm_nil.mp hperm
  · rw [hnone] at hperm
    exact List.perm_nil.mp hperm

theorem Fulfils.arrivals_after (h : s.Fulfils reaction pause v) (hnone : s.arrivals = [])
    (hdelays : reaction.journal.delays = (u.flight.bind fun f ↦ f.waiting.delayMs).toList)
    (hanswers : reaction.answers ++ reaction.journal.elapses =
      (u.flight.map Flight.answer).toList) :
    v.arrivals =
      (u.flight.map fun f ↦ (s.now + f.waiting.duration s.latency, f.answer)).toList := by
  have hperm := h.arrivals
  rw [hnone, List.append_nil, Scene.arrivals_of_arranges hdelays hanswers] at hperm
  cases hflight : u.flight with
  | none =>
      rw [hflight] at hperm
      exact List.perm_nil.mp hperm
  | some f =>
      rw [hflight] at hperm
      exact List.perm_singleton.mp hperm

/-- Every timeout that is left is due only when all commands of the transition are through. -/
theorem Poised.slack_after (h : s.Poised timing settings scene history asked)
    (hdone : s.Fulfils reaction pause v)
    (hguarded : (history ++ reaction.journal).timeout.map Prod.snd =
      u.flight.map fun f ↦ timing.budget f.request.operation)
    (hsteps : scene.Steps timing settings.latency asked u) {g : Flight} (hg : u.flight = some g)
    (harmed : g.answered = [] → ∃ id after, .effect (.armTimeout id after) ∈ reaction.journal) :
    ∀ due ∈ v.timeouts, s.now + Command.span settings.latency (g.waiting :: g.left) < due := by
  intro due hdue
  rcases hdone.timeouts_after history with ⟨hnone, hperm, -⟩ | hperm
  · -- The timeout is an old one, so the transition is not new.
    rcases hsteps.flight g hg with hnil | ⟨f, hf, hcommands⟩
    · obtain ⟨id, after, hmem⟩ := harmed hnil
      have huntimed := hnone _ (List.mem_filterMap.mpr ⟨_, hmem, rfl⟩)
      cases huntimed
    · rw [← hcommands]
      exact h.slack f hf due (hperm.mem_iff.mp hdue)
  · obtain ⟨x, hx, rfl⟩ := List.mem_map.mp (hperm.mem_iff.mp hdue)
    have hbudget : x.2 = timing.budget g.request.operation := by
      rw [Option.mem_toList.mp hx, hg] at hguarded
      exact Option.some.inj hguarded
    rw [hbudget]
    exact Nat.add_lt_add_left (hsteps.inTime g hg) s.now

theorem Fulfils.within_after (h : s.Fulfils reaction timing.pollInterval v)
    (harrivals : v.arrivals =
      (u.flight.map fun f ↦ (s.now + f.waiting.duration settings.latency, f.answer)).toList)
    (htime : u.InTime timing settings.latency) (hwithin : s.Within horizon) :
    v.Within (horizon + timing.longest) := by
  have hnow := hwithin.now
  refine ⟨?_, fun x hx ↦ ?_, fun x hx ↦ ?_⟩
  · rw [h.now]
    exact hnow.trans (Nat.le_add_right _ _)
  · rw [harrivals] at hx
    obtain ⟨f, hf, rfl⟩ := Option.map_eq_some_iff.mp (Option.mem_toList.mp hx)
    have hspan := htime f hf
    have hbudget := timing.budget_le_longest f.request.operation
    rw [Command.span_cons] at hspan
    exact Nat.add_le_add hnow (by omega)
  · have hpause : timing.pollInterval ≤ timing.longest := Nat.le_add_left _ _
    rcases List.mem_append.mp (h.polls.mem_iff.mp hx) with hx | hx
    · obtain ⟨generation, -, rfl⟩ := List.mem_map.mp hx
      exact Nat.add_le_add hnow hpause
    · exact (hwithin.polls x hx).trans (Nat.le_add_right _ _)

/-- A step schedules no more polls than it ends transitions. -/
theorem Fulfils.few_after (h : s.Fulfils reaction pause v) (hspaced : reaction.journal.Spaced pause)
    (hledger : scene.ledger ++ reaction.journal.ledger = u.ledger)
    (hendings : u.ledger.endings.length ≤ scene.ledger.endings.length + 2) :
    v.polls.length ≤ s.polls.length + 2 := by
  have hlength := h.polls.length_eq
  have hended := congrArg (fun l ↦ l.endings.length) hledger
  have hjournal : reaction.journal.ledger.endings = reaction.journal.endings := rfl
  have hfew := hspaced.few
  simp only [Ledger.append_endings, List.length_append, hjournal] at hended
  rw [List.length_append, List.length_map] at hlength
  omega

/-- A service that handles an event goes on to the scene to which the event takes its receiver. -/
theorem Poised.handle (h : s.Poised timing settings scene history asked)
    (hleft : (scene.circuit s.receiver).left event = [])
    (htakes : (scene.circuit s.receiver).TakesTo timing settings history event u)
    (hsteps : scene.Steps timing settings.latency asked u) (hwithin : s.Within horizon)
    (hfew : s.polls.length ≤ polls) :
    (s.handle event).At timing settings u (horizon + timing.longest) (polls + 2) := by
  obtain ⟨d, journal, hstep, hshown, harranges⟩ := htakes
  obtain ⟨reaction, hreaction, hreceiver, rfl, hinFlight⟩ := Circuit.reaction_of_step hstep
  obtain ⟨turn, hturn, -, hjournal⟩ := Circuit.step_ok hstep
  obtain ⟨events, hreached⟩ := h.shown.reached
  have hspaced : reaction.journal.Spaced timing.pollInterval := by
    rw [hjournal, ← h.shown.radio.timing]
    exact Controller.step_spaced hreached.steady hturn
  have hdone := fulfils_handle hreaction hspaced
  have hanswers := hinFlight.symm.trans hshown.inFlight
  rw [hleft, List.nil_append] at hanswers
  have harrivals := hdone.arrivals_after h.arrivals harranges.delays hanswers
  rw [h.latency] at harrivals
  have hledger : scene.ledger ++ reaction.journal.ledger = u.ledger := by
    rw [← h.shown.ledger, ← Journal.ledger_append, hshown.ledger]
  obtain ⟨reports, hreported, hasked⟩ := hsteps.reports
  have hsame : scene.ledger.reports ++ reaction.journal.reports =
      scene.ledger.reports ++ reports := by
    rw [← hreported, ← hledger]
    rfl
  have hreports := List.append_cancel_left hsame
  obtain ⟨hwaiting, hanswered⟩ := hdone.reports u.asked (by rw [h.waiting, hreports, hasked])
  have hcircuit : u.circuit (s.handle event).receiver = d := by
    rw [Scene.circuit, ← hshown.inFlight, hdone.receiver, ← hreceiver]
  have hworks : (s.handle event).Works timing settings u (history ++ reaction.journal) := by
    refine ⟨hdone.ended.trans h.ended, hdone.latency.trans h.latency, hcircuit ▸ hshown,
      hdone.ordered h.ordered, ?_, hdone.untimed_after h.untimed⟩
    rw [hanswered, h.answered, hreported, hreports, List.reverse_append]
  refine ⟨⟨_, hworks, ?_, hwaiting, hsteps.inTime, ?_, ?_, ?_⟩,
    hdone.within_after harrivals hsteps.inTime hwithin,
    (hdone.few_after hspaced hledger hsteps.endings).trans (Nat.add_le_add_right hfew 2)⟩
  · rw [hdone.published, hdone.receiver]
  · intro hflight
    rw [harrivals, hflight]
    rfl
  · intro g hg
    have hslack := h.slack_after hdone hshown.guarded hsteps hg (harranges.armed g hg)
    refine ⟨_, by rw [harrivals, hg]; rfl, by rw [hdone.now]; exact Nat.le_add_right _ _,
      fun due hdue ↦ ?_⟩
    have hlater := hslack due hdue
    rwa [Command.span_cons, ← Nat.add_assoc] at hlater
  · intro hflight hscanning
    have hmem := harranges.scheduled hflight hscanning
    rw [hdone.receiver, ← hreceiver]
    exact ⟨_, hdone.polls.mem_iff.mpr (List.mem_append_left _ (List.mem_map_of_mem hmem))⟩

end Service

end FmTuner
