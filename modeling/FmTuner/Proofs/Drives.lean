import FmTuner.Proofs.Failure
import FmTuner.Proofs.Schedules

/-!
# Transitions that drive the chip

Most operations are carried out by commands that read nothing. The chip has but one answer to such a
command, so the transition goes on from each command to the next and is done after the last, unless
its timeout comes first. `Turn.SetsOut` says what the turn leaves in which it begins, and
`Journal.Resolves` what is on record when it has ended.
-/

namespace FmTuner

/-! ## Operations and plans -/

/-- The operations that are never carried out without commands, none of which reads the chip. -/
def Operation.drives : Operation → Bool
  | .start _ | .reset | .pause | .resume | .setFrequency _ | .setForceMono _ | .scanUp | .scanDown
  | .fullScan | .scanStep | .stopScan => true
  | .setThreshold _ | .setAutoAfSwitch _ | .setAutoTaSwitch _ | .pollScan _ | .scanDone .. => false

/-- The time that the commands of an action take: a latency for every call to the chip, and the time
in which the chip settles for a start. -/
def Action.cost (timing : Timing) (latency : Nat) (action : Action) : Nat :=
  latency * (action.commands.filterMap Command.call).length +
    if action.operation.isStart then timing.settleDelay else 0

namespace Plan.Built

variable {timing : Timing} {operation : Operation} {a : Attributes} {scanMode : Option ScanMode}
  {plan : Plan}

theorem ne_nil_of_drives (h : Built timing a scanMode operation plan)
    (hdrives : operation.drives = true) : plan.action.commands ≠ [] := by
  cases h <;> first
    | exact List.cons_ne_nil _ _
    | simp [Operation.drives] at hdrives

theorem reads_of_drives (h : Built timing a scanMode operation plan)
    (hdrives : operation.drives = true) :
    ∀ command ∈ plan.action.commands, command.isRead = false := by
  refine h.reads fun mode hpoll ↦ ?_
  rw [hpoll] at hdrives
  cases hdrives

theorem span_eq_cost (h : Built timing a scanMode operation plan)
    (hdrives : operation.drives = true) (latency : Nat) :
    Command.span latency plan.action.commands = plan.action.cost timing latency := by
  cases h with
  | setThreshold | setAutoAfSwitch | setAutoTaSwitch | pollScan | scanDone => cases hdrives
  | _ =>
      simp only [ofCommands, startCommands, tuneCommands, searchCommands, Command.span_cons,
        Command.span_nil, Command.duration, Command.delayMs, Command.writeByte,
        Command.writeFrequency, Option.getD_none, Option.getD_some, Action.cost, Command.call,
        List.filterMap_cons, List.filterMap_nil, List.length_cons, List.length_nil,
        Operation.isStart]
      simp <;> omega

end Plan.Built

/-- A command that is no read is not changed by its answer. -/
theorem Command.completed_eq {command completed : Command} {callback : Callback} {band : Band}
    {verdict : Verdict} (h : command.complete callback band = .ok (completed, verdict))
    (hread : command.isRead = false) : completed = command := by
  cases completes_of_complete h with
  | refused | confirmed => rfl
  | decoded => simp [isRead] at hread

namespace Command

theorem span_append (latency : Nat) (xs ys : List Command) :
    span latency (xs ++ ys) = span latency xs + span latency ys := by
  induction xs with
  | nil => simp
  | cons command rest ih => rw [List.cons_append, span_cons, span_cons, ih, Nat.add_assoc]

theorem span_take_le (latency : Nat) (commands : List Command) (n : Nat) :
    span latency (commands.take n) ≤ span latency commands := by
  calc span latency (commands.take n)
      ≤ span latency (commands.take n) + span latency (commands.drop n) := Nat.le_add_right _ _
    _ = span latency commands := by rw [← span_append, List.take_append_drop]

theorem span_take_succ (latency : Nat) {commands : List Command} {n : Nat} {command : Command}
    (h : commands[n]? = some command) :
    span latency (commands.take (n + 1)) =
      span latency (commands.take n) + command.duration latency := by
  rw [List.take_add_one, h, span_append, Option.toList_some, span_cons, span_nil, Nat.add_zero]

end Command

/-! ## What is on record -/

/-- The transition once it waits for its command at an index. -/
def Pending.reached (p : Pending) (index : Nat) : Pending :=
  { p with action := { p.action with index, status := .running } }

namespace Journal

variable {j k : Journal}

/-- A transition has ended with an outcome, which was reported to whoever asked for it, and has left
the radio in a state. -/
structure Resolves (j : Journal) (p : Pending) (outcome : Outcome) (state : RadioState) :
    Prop where
  resolved : ∃ q timedOut c, .resolved q timedOut c ∈ j ∧ q.id = p.id ∧
    Turn.resolution q timedOut = (state, outcome) ∧ c.state = state
  reported : ∀ id, p.request = some id → .effect (.complete id outcome) ∈ j

theorem Resolves.mono {p : Pending} {outcome : Outcome} {state : RadioState}
    (h : j.Resolves p outcome state) (hsub : j <+: k) : k.Resolves p outcome state := by
  obtain ⟨q, timedOut, c, hmem, hq⟩ := h.resolved
  exact ⟨⟨q, timedOut, c, hsub.mem hmem, hq⟩, fun id hid ↦ hsub.mem (h.reported id hid)⟩

theorem setsTimeout_of_untimed (h : ∀ e ∈ j, e.isTimed = false) :
    ∀ f ∈ j.effects, f.setsTimeout = false := by
  intro f hf
  obtain ⟨e, he, hf⟩ := List.mem_filterMap.mp hf
  have hmem := h e he
  cases e with
  | effect g =>
      cases hf
      cases f <;> first | rfl | cases hmem
  | _ => cases hf

theorem begun_not_mem_of_untimed (h : ∀ e ∈ j, e.isTimed = false) (p : Pending)
    (c : Controller) : .begun p c ∉ j := fun hmem ↦ by
  cases h _ hmem

theorem begun_not_mem_ofEnd (c : Controller) (p : Pending) (armed timedOut : Bool) (q : Pending)
    (d : Controller) : .begun q d ∉ ofEnd c p armed timedOut := by
  have hentered := begun_not_mem_of_untimed (untimed_enter c.state (Turn.resolution p timedOut).1
    c.generation c.timing.pollInterval) q d
  have hstart := begun_not_mem_of_untimed (untimed_ofStart p) q d
  have hreadings := begun_not_mem_of_untimed (untimed_ofReadings p c.attributes) q d
  have hreport := begun_not_mem_of_untimed
    (untimed_ofReport p.request (Turn.resolution p timedOut).2) q d
  rw [List.mem_append, not_or] at hentered
  cases armed <;> simp [ofEnd, hentered, hstart, hreadings, hreport]

end Journal

namespace Turn

variable {accepts : Call → Bool} {e : Option Event} {t u : Turn} {p : Pending} {c : Controller}

theorem begun_mem_hold {progress : Progress} {q : Pending}
    (h : .begun p c ∈ (t.hold q progress).journal) : .begun p c ∈ t.journal := by
  rw [hold_journal] at h
  exact (List.mem_append.mp h).resolve_right
    (Journal.begun_not_mem_of_untimed (Journal.untimed_ofProgress _ _) p c)

theorem begun_mem_settle {progress : Progress} {q : Pending} {armed timedOut : Bool}
    (h : .begun p c ∈ (t.settle q progress armed timedOut).journal) : .begun p c ∈ t.journal := by
  rw [settle_journal] at h
  have hleft := (List.mem_append.mp h).resolve_right (Journal.begun_not_mem_ofEnd _ _ _ _ p c)
  exact (List.mem_append.mp hleft).resolve_right
    (Journal.begun_not_mem_of_untimed (Journal.untimed_ofProgress _ _) p c)

theorem begun_mem_launch {q : Pending} {notices : List Notification}
    (h : .begun p c ∈ (t.launch q notices).journal) : .begun p c ∈ t.journal ∨ p = q := by
  rw [launch_journal, List.mem_append, List.mem_cons] at h
  rcases h with h | h | h
  · exact .inl h
  · cases h
    exact .inr rfl
  · simp at h

theorem Taken.begun_mem {r : Request} (htaken : Taken e t r u) (h : .begun p c ∈ u.journal) :
    .begun p c ∈ t.journal := by
  cases htaken with
  | queued => simpa using h
  | poll => exact h

theorem settle_resolves (t : Turn) (p : Pending) (progress : Progress) (armed timedOut : Bool) :
    (t.settle p progress armed timedOut).journal.Resolves p
      (resolution { p with action := progress.action } timedOut).2
      (resolution { p with action := progress.action } timedOut).1 := by
  rw [settle_journal]
  refine ⟨⟨{ p with action := progress.action }, timedOut,
    (t.settling progress).resolved { p with action := progress.action } timedOut, ?_, rfl, rfl,
    rfl⟩, fun id hid ↦ ?_⟩
  · exact List.mem_append_right _ (by simp [Journal.ofEnd])
  · exact List.mem_append_right _ (by simp [Journal.ofEnd, Journal.ofReport, hid])

theorem journal_prefix_of_moves (h : Relation.ReflTransGen (Move accepts e) t u) :
    t.journal <+: u.journal := by
  induction h with
  | refl => exact List.prefix_rfl
  | tail _ hmove ih => exact ih.trans hmove.journal_prefix

/-- Nothing leaves the queue while a transition is in flight. -/
theorem eq_of_moves_of_pending (h : Relation.ReflTransGen (Move accepts none) t u)
    (hpending : t.radio.pending = some p) : u = t := by
  rcases h.cases_head with rfl | ⟨v, hmove, -⟩
  · rfl
  · obtain ⟨-, -, -, hnone, -⟩ := hmove.queue_of_taken
    cases hnone.symm.trans hpending

/-! ## Setting out -/

/-- A transition has begun in a turn and waits for the answer to its first command. Its timeout was
armed last, and nothing but that command asks for a delay. -/
structure SetsOut (t : Turn) (p : Pending) : Prop where
  pending : t.radio.pending = some (p.reached 0)
  armed : ∃ before, t.journal =
    before ++ [.effect (.armTimeout p.id (t.radio.timing.budget p.action.operation))]
  delays : t.journal.delays = (p.action.commands.head?.bind Command.delayMs).toList
  built : ∃ a scanMode plan, Plan.Built t.radio.timing a scanMode p.action.operation plan ∧
    plan.action = p.action

/-- Every transition that has begun to drive the chip has set out, with nothing on its way from
before. -/
def Departs (t : Turn) (left : List Callback) : Prop :=
  ∀ p c, .begun p c ∈ t.journal → p.action.operation.drives = true → left = [] ∧ t.SetsOut p

variable {chip : Chip} {left : List Callback} {muted : Bool}

theorem departs_begin {r : Request} {destination : RadioState} {plan : Plan} {progress : Progress}
    (hpending : t.radio.pending = none) (hfine : t.Sound chip left muted)
    (hbuilt : Plan.Built t.radio.timing t.radio.attributes t.radio.scanMode r.operation plan)
    (hbegins : plan.action.Begins chip.accepts t.radio.attributes progress)
    (hstatus : progress.action.status = .running) :
    left = [] ∧ Turn.SetsOut
      (((t.launch (t.radio.transition r destination plan.action) plan.notices).hold
        (t.radio.transition r destination plan.action) progress).emit
          (.armTimeout (t.radio.begun + 1) (t.radio.timing.budget r.operation)))
      (t.radio.transition r destination plan.action) := by
  obtain ⟨-, hnothing, -⟩ := hfine.panel hpending
  obtain ⟨hleft, helapses⟩ := List.append_eq_nil_iff.mp hnothing
  have hoperation : plan.action.operation = r.operation := hbuilt.action.1
  have hcalm := launch_calm hbuilt (t.radio.transition r destination plan.action) t.radio
  cases hbegins with
  | empty => cases hstatus
  | refused => cases hstatus
  | @issued first rest hcommands haccepted =>
      refine ⟨hleft, ?_, ?_, ?_, ?_⟩
      · rw [emit_radio, hold_radio]
        rfl
      · rw [emit_journal, emit_radio, hold_radio, Controller.transition_action, hoperation]
        exact ⟨_, rfl⟩
      · have harm : Journal.delays [.effect (.armTimeout (t.radio.begun + 1)
            (t.radio.timing.budget r.operation))] = [] := rfl
        rw [emit_journal, Journal.delays_append, harm, hold_journal, Journal.delays_append,
          Journal.delays_ofProgress, launch_journal, Journal.delays_append,
          Journal.delays_eq_nil helapses, Journal.delays_eq_nil hcalm.elapses, List.append_nil,
          Controller.transition_action, hcommands]
        exact Exchange.delay_issued 0 first true
      · refine ⟨t.radio.attributes, t.radio.scanMode, plan, ?_, rfl⟩
        rw [Controller.transition_action, hoperation]
        simpa using hbuilt

/-- What drives the chip does not end as soon as it begins. -/
theorem not_drives_of_flash {r : Request} {destination : RadioState} {plan : Plan}
    {progress : Progress} (hpending : t.radio.pending = none) (hfine : t.Sound chip left muted)
    (hroute : route t.radio.state r.operation = .accept destination)
    (hbuilt : Plan.Built t.radio.timing t.radio.attributes t.radio.scanMode r.operation plan)
    (hbegins : plan.action.Begins chip.accepts t.radio.attributes progress)
    (hstatus : progress.action.status.isTerminal = true) : plan.action.operation.drives = false := by
  obtain ⟨-, -, hpanel⟩ := hfine.panel hpending
  refine Bool.eq_false_iff.mpr fun hdrives ↦ ?_
  rw [hbuilt.action.1] at hdrives
  have hconducts := hbuilt.conducts hroute hpanel
  cases hbegins with
  | empty hcommands => exact hbuilt.ne_nil_of_drives hdrives hcommands
  | refused hcommands haccepted =>
      rw [hcommands] at hconducts
      simp [(Chip.issue_ok hconducts.1).1] at haccepted
  | issued => simp [Status.isTerminal] at hstatus

theorem Move.departs (hmove : Move chip.accepts e t u)
    (hfine : e = none → t.Sound chip left muted ∨ t.Failed)
    (ht : ∀ p c, .begun p c ∈ t.journal → p.action.operation.drives = false) : u.Departs left := by
  intro p c hbegun hdrives
  have hold : .begun p c ∉ t.journal := fun hmem ↦ by simp [ht p c hmem] at hdrives
  -- A poll drives nothing, so whatever begins comes out of the queue.
  have hsound : ∀ {r : Request} {v : Turn} {destination : RadioState},
      Taken e t r v → route v.radio.state r.operation = .accept destination →
        r.operation.drives = true → v.Sound chip left muted := by
    intro r v destination htaken hroute hr
    cases htaken with
    | poll => cases hr
    | @queued _ q passed rest hpending hqueue hpassed hq =>
        have htaken : Taken none t q.request (t.take q passed rest) :=
          .queued hpending hqueue hpassed hq
        rcases hfine rfl with hfine | hfailed
        · exact htaken.sound hfine
        · rw [(htaken.failed hfailed).state, route_error] at hroute
          cases hroute
  cases hmove with
  | ready =>
      rw [enter_journal, List.append_assoc] at hbegun
      exact absurd hbegun (by
        simp [hold, Journal.begun_not_mem_of_untimed (Journal.untimed_enter _ _ _ _) p c])
  | arrive r => exact absurd (by simpa using hbegun) hold
  | decline htaken =>
      rw [report_journal] at hbegun
      exact absurd (htaken.begun_mem ((List.mem_append.mp hbegun).resolve_right
        (Journal.begun_not_mem_of_untimed (Journal.untimed_ofReport _ _) p c))) hold
  | @begin _ _ v r destination plan progress htaken hroute hplan hbegins hstatus =>
      rw [emit_journal, List.mem_append] at hbegun
      have hheld := begun_mem_hold (hbegun.resolve_right (by simp))
      rcases begun_mem_launch hheld with hmem | rfl
      · exact absurd (htaken.begun_mem hmem) hold
      · have hbuilt := Plan.built_of_build hplan
        rw [Controller.transition_action, hbuilt.action.1] at hdrives
        exact departs_begin htaken.pending (hsound htaken hroute hdrives) hbuilt hbegins hstatus
  | @flash _ _ v r destination plan progress htaken hroute hplan hbegins hstatus =>
      rcases begun_mem_launch (begun_mem_settle hbegun) with hmem | rfl
      · exact absurd (htaken.begun_mem hmem) hold
      · have hbuilt := Plan.built_of_build hplan
        have hr : r.operation.drives = true := by
          rwa [Controller.transition_action, hbuilt.action.1] at hdrives
        have hnone := not_drives_of_flash htaken.pending (hsound htaken hroute hr) hroute hbuilt
          hbegins hstatus
        rw [Controller.transition_action, hnone] at hdrives
        cases hdrives
  | advance => exact absurd (begun_mem_hold hbegun) hold
  | finish | expire => exact absurd (begun_mem_settle hbegun) hold

end Turn

namespace Circuit

variable {c : Circuit} {event : Event} {muted : Bool} {turn : Turn} {p : Pending}

theorem step_departs (h : c.Sound muted ∨ c.Failed) (hsteady : c.receiver.radio.Steady)
    (hoffers : c.Offers event)
    (hturn : c.receiver.radio.step c.receiver.chip.accepts event = .ok turn) :
    turn.Departs (c.left event) := by
  have hempty : ∀ {t : Turn}, t.journal = [] → t.Departs (c.left event) := by
    intro t ht p d hbegun
    rw [ht] at hbegun
    cases hbegun
  rcases Controller.step_moves hsteady hturn with ⟨-, -, rfl⟩ | ⟨v, hcause, hmoves, -⟩
  · exact hempty rfl
  · let Q : Turn → Prop := fun t ↦
      (t.Sound c.receiver.chip (c.left event) muted ∨ t.Failed) ∧ t.Departs (c.left event)
    have hfine : v.Sound c.receiver.chip (c.left event) muted ∨ v.Failed := by
      rcases h with hsound | hfailed
      · exact (hsound.cause hsteady hoffers hcause).imp id And.left
      · have hstart : Turn.Failed { radio := c.receiver.radio } :=
          ⟨hfailed.state, hfailed.pending, rfl⟩
        rcases hcause with ⟨-, rfl⟩ | hmove
        · exact .inr hstart
        · exact .inr (hmove.failed hstart)
    have hv : v.Departs (c.left event) := by
      rcases hcause with ⟨-, rfl⟩ | hmove
      · exact hempty rfl
      · have hqueued : some event = none →
            Turn.Sound { radio := c.receiver.radio } c.receiver.chip (c.left event) muted ∨
              Turn.Failed { radio := c.receiver.radio } := fun hnone ↦ by cases hnone
        refine hmove.departs hqueued fun p d hbegun ↦ ?_
        cases hbegun
    refine (Turn.keeps_of_moves (Q := Q) (fun t u ht hmove ↦ ?_) hmoves ⟨hfine, hv⟩).2
    obtain ⟨-, -, -, hnone, -⟩ := hmove.queue_of_taken
    refine ⟨ht.1.imp (fun hsound ↦ hmove.sound hsound (by simp) (by simp)) hmove.failed,
      hmove.departs (fun _ ↦ ht.1) fun p d hbegun ↦ Bool.eq_false_iff.mpr fun hdrives ↦ ?_⟩
    -- Something that drives the chip would still be in flight.
    cases hnone.symm.trans (ht.2 p d hbegun hdrives).2.pending

end Circuit

/-! ## In flight -/

namespace Controller

variable {accepts : Call → Bool} {c : Controller} {event : Event} {u : Turn} {p : Pending}

/-- What is neither an answer nor the timeout of the transition in flight leaves that as it is. -/
theorem step_of_pending (hsteady : c.Steady) (hpending : c.pending = some p)
    (hcallback : ∀ answer, event ≠ .callback answer) (htimeout : event ≠ .timeout p.id)
    (hready : event ≠ .ready) (h : c.step accepts event = .ok u) :
    u.radio.pending = some p ∧ u.journal.effects = [] ∧ u.journal.sent = [] ∧
      ∀ e ∈ u.journal, e.isTimed = false := by
  rcases step_moves hsteady h with ⟨rfl, -, -⟩ | ⟨v, hcause, hmoves, -⟩
  · exact absurd rfl hready
  · have hv : v.radio.pending = some p ∧ v.journal.effects = [] ∧ v.journal.sent = [] ∧
        ∀ e ∈ v.journal, e.isTimed = false := by
      rcases hcause with ⟨-, rfl⟩ | hmove
      · exact ⟨hpending, rfl, rfl, List.forall_mem_nil _⟩
      · cases hmove with
        | ready => exact absurd rfl hready
        | arrive r => exact ⟨hpending, rfl, rfl, by simp [Entry.isTimed]⟩
        | decline htaken | begin htaken | flash htaken =>
            cases htaken with
            | poll hnone => cases hpending.symm.trans hnone
        | advance | finish => exact absurd rfl (hcallback _)
        | expire hsome =>
            cases hpending.symm.trans hsome
            exact absurd rfl htimeout
    rw [Turn.eq_of_moves_of_pending hmoves hv.1]
    exact hv

/-- The timeout of the transition in flight ends it in the error state. -/
theorem step_expires (hsteady : c.Steady) (hpending : c.pending = some p)
    (h : c.step accepts (.timeout p.id) = .ok u) :
    u.radio.state = .error ∧ u.radio.pending = none ∧ u.radio.queue = [] ∧
      u.journal.Resolves p .timedOut .error := by
  rcases step_moves hsteady h with ⟨hready, -, -⟩ | ⟨v, hcause, hmoves, hrested⟩
  · cases hready
  · have hmove : Turn.Move accepts (some (.timeout p.id)) { radio := c } v := by
      rcases hcause with ⟨hignores, -⟩ | hmove
      · exact absurd rfl (hignores p hpending)
      · exact hmove
    have hfailed : u.Failed := Turn.keeps_of_moves (Q := Turn.Failed)
      (fun _ _ ht hnext ↦ hnext.failed ht) hmoves (Turn.failed_of_timeout rfl hmove)
    refine ⟨hfailed.state, hfailed.pending, queue_of_error hrested hfailed.state hfailed.pending, ?_⟩
    refine Journal.Resolves.mono ?_ (Turn.journal_prefix_of_moves hmoves)
    generalize hid : p.id = id at hmove
    cases hmove with
    | decline htaken | begin htaken | flash htaken => cases htaken
    | expire hsome =>
        cases hpending.symm.trans hsome
        exact Turn.settle_resolves _ _ _ _ _

end Controller

namespace Turn

/-- A callback lets the transition in flight go on, or ends it. -/
theorem Move.of_callback {accepts : Call → Bool} {t u : Turn} {p : Pending} {answer : Callback}
    (hmove : Move accepts (some (.callback answer)) t u) (hpending : t.radio.pending = some p) :
    ∃ progress, p.action.Advances accepts answer t.radio.attributes progress ∧
      (progress.action.status = .running ∧ u = t.hold p progress ∨
        progress.action.status.isTerminal = true ∧ u = t.settle p progress true false) := by
  cases hmove with
  | decline htaken | begin htaken | flash htaken => cases htaken
  | advance hsome hadvances hstatus =>
      cases hpending.symm.trans hsome
      exact ⟨_, hadvances, .inl ⟨hstatus, rfl⟩⟩
  | finish hsome hadvances hstatus =>
      cases hpending.symm.trans hsome
      exact ⟨_, hadvances, .inr ⟨hstatus, rfl⟩⟩

end Turn

/-- How an answer lets an action go on whose commands read nothing: to its next command, or to its
end. -/
inductive Action.Proceeds (action : Action) : Progress → Prop where
  | next {a : Attributes} {answer : Callback} {completed command : Command}
      (hnext : action.commands[action.index + 1]? = some command) :
      Proceeds action
        { action := { action with index := action.index + 1 }
          attributes := a
          exchanges := [.answered action.index completed answer .success,
            .issued (action.index + 1) command true] }
  | done {progress : Progress} (hlast : action.commands.length = action.index + 1)
      (hstatus : progress.action.status = .done) : Proceeds action progress

namespace Circuit

variable {c : Circuit} {muted : Bool} {turn : Turn} {p : Pending} {index : Nat} {answer : Callback}

/-- The answer that is on its way to a command that is no read is a success, and the chip takes the
next command. -/
theorem Expects.proceeds {command : Command} {progress : Progress}
    (h : c.Expects muted p command answer)
    (hread : command.isRead = false)
    (hadvances : p.action.Advances c.receiver.chip.accepts answer c.receiver.radio.attributes
      progress) : p.action.Proceeds progress := by
  have hcompleted : ∀ {other completed : Command} {verdict : Verdict},
      p.action.commands[p.action.index]? = some other →
      other.complete answer c.receiver.radio.attributes.band = .ok (completed, verdict) →
        p.action.commands.set p.action.index completed = p.action.commands ∧
          verdict = .success := by
    intro other completed verdict hother hcomplete
    cases h.current.symm.trans hother
    rw [Command.completed_eq hcomplete hread]
    obtain ⟨hindex, rfl⟩ := List.getElem?_eq_some_iff.mp hother
    refine ⟨List.set_getElem_self hindex, ?_⟩
    by_contra hne
    simp [(h.answered _ _ _ hcomplete).2 hne] at hread
  cases hadvances with
  | stopped hcommand hcomplete hverdict => exact absurd (hcompleted hcommand hcomplete).2 hverdict
  | finished hcommand hcomplete hlast => exact .done hlast rfl
  | refused hcommand hcomplete hnext haccepted =>
      have hdrop := h.rest
      rw [List.drop_eq_getElem_cons (List.getElem?_eq_some_iff.mp hnext).1,
        (List.getElem?_eq_some_iff.mp hnext).2] at hdrop
      simp [(Chip.issue_ok hdrop.1).1] at haccepted
  | issued hcommand hcomplete hnext haccepted =>
      rw [(hcompleted hcommand hcomplete).1]
      exact .next hnext

/-- An answer to a command that is no read lets the transition go on to its next command, or be done
if there is none. -/
theorem Sound.step_answer (h : c.Sound muted) (hsteady : c.receiver.radio.Steady)
    (hpending : c.receiver.radio.pending = some (p.reached index))
    (hreads : ∀ command ∈ p.action.commands, command.isRead = false)
    (hoffers : c.Offers (.callback answer))
    (hturn : c.receiver.radio.step c.receiver.chip.accepts (.callback answer) = .ok turn) :
    (∃ next, p.action.commands[index + 1]? = some next ∧
      turn.radio.pending = some (p.reached (index + 1)) ∧
      turn.journal.delays = next.delayMs.toList ∧ turn.journal.polls = [] ∧
      ∀ e ∈ turn.journal, e.isTimed = false) ∨
    p.action.commands.length = index + 1 ∧ turn.journal.Resolves p .done p.destination := by
  rcases Controller.step_moves hsteady hturn with ⟨hready, -, -⟩ | ⟨v, hcause, hmoves, -⟩
  · cases hready
  · have hmove : Turn.Move c.receiver.chip.accepts (some (.callback answer))
        { radio := c.receiver.radio } v := by
      rcases hcause with ⟨hignores, -⟩ | hmove
      · cases hpending.symm.trans hignores
      · exact hmove
    obtain ⟨progress, hadvances, hv⟩ := hmove.of_callback hpending
    have hproceeds : (p.reached index).action.Proceeds progress := by
      cases h with
      | resting hnone => cases hpending.symm.trans hnone
      | @waiting q command expected hsome hsource hinvalid herror hexpects =>
          cases hpending.symm.trans hsome
          have hanswer : answer ∈ c.inFlight := hoffers
          rw [hexpects.inFlight, List.mem_singleton] at hanswer
          subst hanswer
          exact hexpects.proceeds (hreads _ (List.mem_of_getElem? hexpects.current)) hadvances
    cases hproceeds with
    | @next a _ completed command hnext =>
        refine .inl ⟨command, hnext, ?_⟩
        have hheld := (hv.resolve_right fun hterminal ↦ by cases hterminal.1).2
        have hradio : v.radio.pending = some (p.reached (index + 1)) := by
          rw [hheld, Turn.hold_radio]
          rfl
        rw [Turn.eq_of_moves_of_pending hmoves hradio]
        refine ⟨hradio, ?_, ?_, ?_⟩
        · rw [hheld, Turn.hold_journal, List.nil_append, Journal.delays_ofProgress]
          exact Exchange.delay_issued _ command true
        · rw [hheld, Turn.hold_journal]
          exact Journal.polls_ofProgress _ _
        · rw [hheld, Turn.hold_journal]
          exact Journal.untimed_ofProgress _ _
    | done hlast hstatus =>
        refine .inr ⟨hlast, ?_⟩
        have hended := (hv.resolve_left fun hrunning ↦ by
          cases hstatus.symm.trans hrunning.1).2
        have hends := Turn.settle_resolves { radio := c.receiver.radio } (p.reached index) progress
          true false
        rw [← hended] at hends
        have hresolution : Turn.resolution { p.reached index with action := progress.action } false =
            (p.destination, .done) := by
          simp [Turn.resolution, hstatus, Pending.reached]
        rw [hresolution] at hends
        exact Journal.Resolves.mono ⟨hends.resolved, hends.reported⟩
          (Turn.journal_prefix_of_moves hmoves)

end Circuit

end FmTuner
