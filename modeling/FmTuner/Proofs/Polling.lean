import FmTuner.Proofs.Backlog
import FmTuner.Proofs.Moves
import Mathlib.Data.List.Count
import Mathlib.Data.List.Induction
import Mathlib.Data.List.Nodup

/-!
# Polls come one at a time

A scan goes on from poll to poll. Every entry into the scanning state schedules the next under the
current generation, and every transition that begins makes it stale. Hence a radio that rests in a
scan has exactly one poll to come, and no other radio has any that is not stale.
-/

namespace FmTuner

namespace Journal

/-- The generations under which polls were scheduled, in order. -/
def polls (j : Journal) : List Nat :=
  j.effects.filterMap fun | .schedulePoll generation _ => some generation | _ => none

@[simp] theorem polls_nil : polls [] = [] := rfl

@[simp] theorem polls_append (j k : Journal) : polls (j ++ k) = polls j ++ polls k := by
  simp [polls]

theorem polls_eq_nil {j : Journal}
    (h : ∀ e ∈ j, ∀ generation after, e ≠ .effect (.schedulePoll generation after)) :
    polls j = [] := by
  simp only [polls, effects, List.filterMap_filterMap, List.filterMap_eq_nil_iff]
  intro e he
  have hne := h e he
  cases e with
  | effect f => cases f <;> first | rfl | exact (hne _ _ rfl).elim
  | _ => rfl

@[simp] theorem polls_ofReport (id : Option RequestId) (outcome : Outcome) :
    polls (ofReport id outcome) = [] := by
  cases id <;> rfl

@[simp] theorem polls_notices (ns : List Notification) :
    polls (ns.map fun n ↦ .effect (.notify n)) = [] :=
  polls_eq_nil (by simp)

@[simp] theorem polls_ofProgress (first : Nat) (p : Progress) : polls (ofProgress first p) = [] :=
  polls_eq_nil (by simp +contextual [ofProgress, or_imp, forall_and])

@[simp] theorem polls_ofChange (old new : RadioState) : polls (ofChange old new) = [] := by
  unfold ofChange
  split
  · rfl
  · cases new <;> rfl

@[simp] theorem polls_ofPoll (target : RadioState) (generation after : Nat) :
    polls (ofPoll target generation after) =
      if target = .scanning then [generation] else [] := by
  unfold ofPoll
  split <;> rfl

@[simp] theorem polls_ofStart (p : Pending) : polls (ofStart p) = [] := by
  unfold ofStart
  split <;> rfl

@[simp] theorem polls_ofReadings (p : Pending) (a : Attributes) : polls (ofReadings p a) = [] := by
  refine polls_eq_nil fun e he generation after ↦ ?_
  rintro rfl
  unfold ofReadings at he
  split at he <;> split at he <;> (try split at he) <;> simp at he

@[simp] theorem polls_ofEnd (c : Controller) (p : Pending) (armed timedOut : Bool) :
    polls (ofEnd c p armed timedOut) =
      if (Turn.resolution p timedOut).1 = .scanning then [c.generation] else [] := by
  have harmed : polls (if armed then [.effect .disarmTimeout] else []) = [] := by
    cases armed <;> rfl
  have hresolved : ∀ j, polls (.resolved p timedOut (c.resolved p timedOut) :: j) = polls j :=
    fun _ ↦ rfl
  rw [ofEnd, polls_append, hresolved]
  simp [harmed]

end Journal

namespace Turn

/-- What a turn keeps about polls. The poll of the current generation is to come exactly while the
radio rests in a scan; all others are of an earlier one. -/
structure Paced (t : Turn) : Prop where
  nodup : t.journal.polls.Nodup
  le : ∀ generation ∈ t.journal.polls, generation ≤ t.radio.generation
  live : t.radio.generation ∈ t.journal.polls ↔
    t.radio.pending = none ∧ t.radio.state = .scanning
  mode : t.radio.state = .scanning → t.radio.scanMode ≠ none

variable {accepts : Call → Bool} {e : Option Event} {t u : Turn} {p : Pending}
  {progress : Progress}

/-- Nothing changes for the polls while neither a transition begins nor one ends. -/
theorem Paced.congr (h : t.Paced) {k : Journal} (hjournal : u.journal = t.journal ++ k)
    (hk : k.polls = []) (hgeneration : u.radio.generation = t.radio.generation)
    (hstate : u.radio.state = t.radio.state) (hmode : u.radio.scanMode = t.radio.scanMode)
    (hpending : u.radio.pending = t.radio.pending) : u.Paced := by
  have hpolls : u.journal.polls = t.journal.polls := by simp [hjournal, hk]
  obtain ⟨hnodup, hle, hlive, hscan⟩ := h
  constructor
  · rwa [hpolls]
  · rwa [hpolls, hgeneration]
  · rwa [hpolls, hgeneration, hstate, hpending]
  · rwa [hstate, hmode]

theorem Taken.paced {r : Request} (htaken : Taken e t r u) (h : t.Paced) : u.Paced := by
  cases htaken with
  | queued => exact h.congr (take_journal ..) rfl rfl rfl rfl rfl
  | poll => exact h

/-- A transition that begins leaves no poll of the current generation. -/
theorem Paced.launched (h : t.Paced) (r : Request) (destination : RadioState) (plan : Plan) :
    (t.launched (t.radio.transition r destination plan.action) plan.notices).Paced := by
  obtain ⟨hnodup, hle, -, hscan⟩ := h
  have hpolls : (t.launched (t.radio.transition r destination plan.action)
      plan.notices).journal.polls = t.journal.polls := by
    have hbegun : ∀ p j, Journal.polls (.begun p t.radio :: j) = Journal.polls j := fun _ _ ↦ rfl
    rw [Turn.launched, launch_journal, Journal.polls_append, hbegun, Journal.polls_notices,
      List.append_nil]
  constructor
  · rwa [hpolls]
  · intro generation hmem
    rw [hpolls] at hmem
    exact (hle generation hmem).trans (Nat.le_succ _)
  · rw [hpolls]
    constructor
    · intro hmem
      have hlt := hle _ hmem
      simp only [Turn.launched, launch_radio] at hlt
      omega
    · rintro ⟨hnone, -⟩
      cases hnone
  · exact hscan

theorem Paced.hold (h : t.Paced) (progress : Progress) (hpending : t.radio.pending = some p) :
    (t.hold p progress).Paced := by
  have hk := Journal.polls_ofProgress t.radio.arrivals progress
  obtain ⟨hnodup, hle, hlive, hscan⟩ := h
  have hpolls : (t.hold p progress).journal.polls = t.journal.polls := by
    rw [hold_journal, Journal.polls_append, hk, List.append_nil]
  constructor
  · rwa [hpolls]
  · simpa only [hpolls, hold_radio] using hle
  · rw [hpolls]
    simpa [hpending] using hlive
  · simpa using hscan

/-- The state that a transition ends in, with the operation that has led there. -/
theorem scanning_of_resolution (hflight : p.source = t.radio.state ∧
      route t.radio.state p.action.operation = .accept p.destination) {timedOut : Bool}
    (hscanning : (resolution { p with action := progress.action } timedOut).1 = .scanning) :
    t.radio.state = .scanning ∨
      progress.action.status = .done ∧ p.action.operation.scanMode.isSome = true := by
  obtain ⟨hsource, hroute⟩ := hflight
  cases hstatus : progress.action.status with
  | done =>
      have hdestination : p.destination = .scanning := by simpa [resolution, hstatus] using hscanning
      rcases (RadioState.states_of_accept hroute).2.2.2 hdestination with hstate | hmode
      · exact .inl hstate
      · exact .inr ⟨rfl, hmode⟩
  | cancel | fail => exact .inl (by simpa [resolution, hstatus, hsource] using hscanning)
  | error | idle | running => simp [resolution, hstatus] at hscanning

theorem Paced.settle (h : t.Paced) (hrouted : t.radio.Routed) (hpending : t.radio.pending = some p)
    (hoperation : progress.action.operation = p.action.operation) {armed timedOut : Bool} :
    (t.settle p progress armed timedOut).Paced := by
  have hflight := hrouted p hpending
  obtain ⟨hnodup, hle, hlive, hscan⟩ := h
  have hfresh : t.radio.generation ∉ t.journal.polls := by simp [hlive, hpending]
  have hpolls : (t.settle p progress armed timedOut).journal.polls =
      t.journal.polls ++
        if (resolution { p with action := progress.action } timedOut).1 = .scanning
        then [t.radio.generation] else [] := by
    rw [settle_journal, Journal.polls_append, Journal.polls_append, Journal.polls_ofProgress,
      Journal.polls_ofEnd, List.append_nil]
    rfl
  constructor
  · rw [hpolls]
    split
    · exact List.nodup_append.mpr ⟨hnodup, by simp, fun x hx y hy heq ↦
        hfresh (List.mem_singleton.mp hy ▸ heq ▸ hx)⟩
    · simpa using hnodup
  · intro generation hmem
    rw [hpolls] at hmem
    simp only [settle_radio, Controller.resolved]
    rcases List.mem_append.mp hmem with hold | hnew
    · exact hle generation hold
    · split at hnew <;> simp_all
  · rw [hpolls]
    split
    next htarget => simp [Controller.resolved, htarget]
    next htarget => simp [Controller.resolved, htarget, hfresh]
  · intro hscanning
    have htarget : (resolution { p with action := progress.action } timedOut).1 = .scanning := by
      simpa [Controller.resolved] using hscanning
    simp only [settle_radio, Controller.resolved, htarget, if_true, Controller.scanAfter,
      hoperation]
    rcases scanning_of_resolution hflight htarget with hstate | ⟨hdone, hmode⟩
    · have hold := hscan hstate
      split
      · cases hscanMode : p.action.operation.scanMode <;> simp [hold]
      · exact hold
    · obtain ⟨mode, hmode⟩ := Option.isSome_iff_exists.mp hmode
      simp [hdone, hmode]

theorem Move.paced (hmove : Move accepts e t u) (h : t.Paced) (hrouted : t.radio.Routed) :
    u.Paced := by
  cases hmove with
  | ready hinvalid =>
      have hpending : t.radio.pending = none := by
        cases hp : t.radio.pending with
        | none => rfl
        | some p =>
            have hroute := (hrouted p hp).2
            simp [hinvalid, route] at hroute
      obtain ⟨hnodup, hle, hlive, -⟩ := h
      constructor <;> simp_all
  | arrive r => exact h.congr (enqueue_journal ..) rfl rfl rfl rfl rfl
  | decline htaken =>
      have hu := htaken.paced h
      exact hu.congr (report_journal ..) (Journal.polls_ofReport _ _) (by simp) (by simp) (by simp)
        (by simp)
  | @begin _ _ v r destination plan progress htaken =>
      have hhold := ((htaken.paced h).launched r destination plan).hold progress rfl
      rw [launched_hold] at hhold
      exact hhold.congr (emit_journal ..) rfl rfl rfl rfl rfl
  | @flash _ _ v r destination plan _ htaken hroute hplan hbegins =>
      have hlaunched := (htaken.paced h).launched r destination plan
      rw [← launched_settle]
      refine hlaunched.settle (fun p hp ↦ ?_) rfl hbegins.same.1
      cases hp
      exact ⟨rfl, (Plan.built_of_build hplan).action.1.symm ▸ hroute⟩
  | advance hpending => exact h.hold _ hpending
  | finish hpending hadvances => exact h.settle hrouted hpending hadvances.same.1
  | expire hpending => exact h.settle hrouted hpending rfl

theorem Move.generation_le (hmove : Move accepts e t u) :
    t.radio.generation ≤ u.radio.generation := by
  cases hmove with
  | decline htaken => cases htaken <;> simp
  | begin htaken => cases htaken <;> simp
  | flash htaken => cases htaken <;> simp [Controller.resolved]
  | _ => simp [Controller.resolved]

/-! ## Polls that are due -/

theorem drainWith_of_rested (h : t.radio.Rested) (fuel : Nat) :
    t.drainWith accepts fuel = .ok t := by
  cases fuel with
  | zero => rfl
  | succ fuel =>
      rw [drainWith]
      split
      next => rfl
      next hpending =>
        have hwaits : t.radio.queue.dropWhile t.radio.defers = [] :=
          List.dropWhile_eq_nil_iff.mpr (h (by simpa using hpending))
        rw [hwaits]

/-- In the error state every request is refused, so that emptying the queue cannot fault. -/
theorem drainWith_ok_of_error (h : t.radio.state = .error) (fuel : Nat) :
    ∃ u, t.drainWith accepts fuel = .ok u := by
  induction fuel generalizing t with
  | zero => exact ⟨t, rfl⟩
  | succ fuel ih =>
      rw [drainWith]
      split
      next => exact ⟨t, rfl⟩
      next =>
        rcases dropWhile_defers t.radio with hdrop | ⟨q, rest, hdrop, -, -⟩
        · exact ⟨t, by rw [hdrop]⟩
        · simp only [hdrop, dispatch, note_radio, h, route, bind, Except.bind]
          exact ih (by simp)

end Turn

namespace Controller

variable {timing : Timing} {accepts : Call → Bool} {c : Controller} {t u : Turn}

theorem step_pollDue_of_ignores (hrested : c.Rested) {generation : Nat}
    (h : c.Ignores (.pollDue generation)) :
    c.step accepts (.pollDue generation) = .ok { radio := c } := by
  have hpoll : Turn.poll accepts { radio := c } generation = .ok { radio := c } := by
    rw [Turn.poll]
    split
    next => rfl
    next hlive =>
      simp only [not_or, Decidable.not_not, Bool.not_eq_true, Option.isSome_eq_false_iff,
        Option.isNone_iff_eq_none] at hlive
      have hmode : c.scanMode = none := by simpa [Ignores, hlive] using h
      simp only [hmode]
  rw [step, if_neg (by simp), Turn.react, hpoll]
  exact Turn.drainWith_of_rested hrested _

/-- A poll that is not stale begins, whatever the link answers to its first command. -/
theorem step_pollDue_of_live (hpending : c.pending = none) (hstate : c.state = .scanning)
    {mode : ScanMode} (hmode : c.scanMode = some mode) (accepts : Call → Bool) :
    ∃ u p later, c.step accepts (.pollDue c.generation) = .ok u ∧
      u.journal = .begun p c :: later ∧ p.action.operation = .pollScan mode ∧
        c.generation < u.radio.generation := by
  let t : Turn := { radio := c }
  let r : Request := { id := none, operation := .pollScan mode }
  let plan := Plan.ofCommands (.pollScan mode)
    [.pollStatus, .readFrequency, .readSignal] (.scanPolled mode c.timing.maxStations)
  let p := c.transition r .scanning plan.action
  have hreact : t.react accepts (.pollDue c.generation) = t.begin accepts r .scanning plan := by
    simp [t, Turn.react, Turn.poll, hpending, hstate, hmode, Turn.dispatch, route,
      Route.whenScanning, Plan.build, plan, r]
  have hexecute := Progress.issue_eq accepts
    (p := { action := { plan.action with index := 0, status := .running }
            attributes := c.attributes }) rfl rfl
  -- What has begun stays at the front of the journal while the queue is emptied.
  obtain ⟨v, hv, hgeneration, hjournal, u, hu⟩ : ∃ v,
      t.begin accepts r .scanning plan = .ok v ∧ c.generation < v.radio.generation ∧
        [.begun p c] <+: v.journal ∧ ∃ u, v.drain accepts = .ok u := by
    rw [Turn.begin_eq, show plan.action.execute accepts c.attributes = _ from hexecute]
    cases haccepted : Command.pollStatus.accepted accepts with
    | true =>
        refine ⟨_, rfl, ?_, ?_, _, Turn.drainWith_of_rested ?_ _⟩
        · simp [t]
        · simp [t, p, plan, Plan.ofCommands]
        · simp [Rested]
    | false =>
        refine ⟨_, rfl, ?_, ?_, Turn.drainWith_ok_of_error ?_ _⟩
        · simp [t, Controller.resolved]
        · simp [t, p, plan, Plan.ofCommands]
        · simp [Controller.resolved, Turn.resolution]
  have hmoves := (Turn.drain_moves hu).1
  have hlate : c.generation < u.radio.generation :=
    Turn.keeps_of_moves (Q := fun t ↦ c.generation < t.radio.generation)
      (fun _ _ ht hmove ↦ ht.trans_le hmove.generation_le) hmoves hgeneration
  obtain ⟨later, hlater⟩ := hjournal.trans <|
    Turn.keeps_of_moves (Q := fun t ↦ v.journal <+: t.journal)
      (fun _ _ ht hmove ↦ ht.trans hmove.journal_prefix) hmoves (List.prefix_refl _)
  refine ⟨u, p, later, ?_, hlater.symm, rfl, hlate⟩
  rw [step, if_neg (by simp)]
  change (t.react accepts (.pollDue c.generation) >>= fun t ↦ t.drain accepts) = _
  rw [hreact, hv]
  exact hu

/-! ## Runs -/

/-- The generations of the polls that a script delivers, in order. -/
def delivered (script : List (Event × (Call → Bool))) : List Nat :=
  script.filterMap fun x ↦ match x.1 with | .pollDue generation => some generation | _ => none

/-- No poll is delivered more often than it has been scheduled by then. -/
def DeliversOnce (timing : Timing) (script : List (Event × (Call → Bool))) : Prop :=
  ∀ before generation accepts after t,
    script = before ++ (.pollDue generation, accepts) :: after →
      (initial timing).run before = .ok t →
        (delivered before).count generation < t.journal.polls.count generation

/-- The polls of a journal that a script has not delivered. -/
def outstanding (script : List (Event × (Call → Bool))) (j : Journal) : List Nat :=
  j.polls.diff (delivered script)

variable {script : List (Event × (Call → Bool))}

theorem initial_routed (timing : Timing) : (initial timing).Routed := by
  intro p hp
  simp [initial] at hp

theorem initial_paced (timing : Timing) : Turn.Paced { radio := initial timing } := by
  constructor <;> simp [initial]

theorem run_paced (h : (initial timing).run script = .ok t) :
    t.Paced ∧ t.radio.Steady ∧ t.radio.Rested := by
  have hrun := run_induction (P := fun t ↦ t.Paced ∧ t.radio.Routed)
    ⟨initial_paced timing, initial_routed timing⟩
    (fun _ _ _ _ _ ht _ _ hmove ↦ ⟨hmove.paced ht.1 ht.2, hmove.routed ht.2⟩)
    (fun _ _ _ ht _ hmove ↦ ⟨hmove.paced ht.1 ht.2, hmove.routed ht.2⟩) h
  exact ⟨hrun.1.1, hrun.2⟩

theorem generation_le_of_step (hsteady : c.Steady) {event : Event}
    (h : c.step accepts event = .ok u) : c.generation ≤ u.radio.generation := by
  have hkept : c.generation ≤ (u.after []).radio.generation :=
    keeps_of_step (Q := fun t ↦ c.generation ≤ t.radio.generation)
      (fun _ _ _ ht _ hmove ↦ ht.trans hmove.generation_le) hsteady le_rfl h
  exact hkept

/-- Every poll that has been delivered is stale: it was so when it came, or became so by beginning. -/
theorem delivered_lt_generation (hscript : DeliversOnce timing script)
    (h : (initial timing).run script = .ok t) :
    ∀ generation ∈ delivered script, generation < t.radio.generation := by
  induction script using List.reverseRecOn generalizing t with
  | nil => simp [delivered]
  | append_singleton before x ih =>
      obtain ⟨u, v, hu, hv, rfl⟩ := run_append h
      obtain ⟨hpaced, hsteady, -⟩ := run_paced hu
      have hstep := run_single hv
      have hlater : u.radio.generation ≤ v.radio.generation := generation_le_of_step hsteady hstep
      have hbefore : DeliversOnce timing before := by
        intro front generation accepts after w hsplit hw
        exact hscript front generation accepts (after ++ [x]) w (by simp [hsplit]) hw
      intro generation hmem
      rw [delivered, List.filterMap_append, List.mem_append] at hmem
      rcases hmem with hmem | hmem
      · exact (ih hbefore hu generation hmem).trans_le hlater
      · obtain ⟨event, accepts⟩ := x
        cases event with
        | pollDue generation' =>
            have heq : generation = generation' := by simpa using hmem
            subst heq
            have hcount := hscript before generation accepts [] u rfl hu
            have hscheduled : generation ∈ u.journal.polls :=
              List.count_pos_iff.mp (Nat.zero_lt_of_lt hcount)
            rcases (hpaced.le generation hscheduled).lt_or_eq with hstale | rfl
            · exact hstale.trans_le hlater
            · obtain ⟨hpending, hstate⟩ := hpaced.live.mp hscheduled
              obtain ⟨mode, hmode⟩ := Option.ne_none_iff_exists'.mp (hpaced.mode hstate)
              obtain ⟨w, p, later, hw, -, -, hlt⟩ :=
                step_pollDue_of_live hpending hstate hmode accepts
              cases hw.symm.trans hstep
              exact hlt
        | _ => simp at hmem

/-- As long as no poll is delivered twice: no two polls are scheduled under one generation; a radio
that rests in a scan has exactly one poll of its generation to come, and that poll begins; in any
other situation all that are to come are stale and do nothing. -/
theorem one_live_poll_while_resting_in_scan (hscript : DeliversOnce timing script)
    (h : (initial timing).run script = .ok t) :
    t.journal.polls.Nodup ∧
    (t.radio.pending = none → t.radio.state = .scanning →
      (outstanding script t.journal).count t.radio.generation = 1 ∧
        ∃ mode, t.radio.scanMode = some mode ∧
          ∀ accepts, ∃ u p later,
            t.radio.step accepts (.pollDue t.radio.generation) = .ok u ∧
              u.journal = .begun p t.radio :: later ∧ p.action.operation = .pollScan mode) ∧
    (t.radio.pending ≠ none ∨ t.radio.state ≠ .scanning →
      ∀ generation ∈ outstanding script t.journal, generation < t.radio.generation ∧
        ∀ accepts, t.radio.step accepts (.pollDue generation) = .ok { radio := t.radio }) := by
  obtain ⟨hpaced, -, hrested⟩ := run_paced h
  have hdelivered := delivered_lt_generation hscript h
  refine ⟨hpaced.nodup, fun hpending hstate ↦ ⟨?_, ?_⟩, fun hbusy generation hmem ↦ ?_⟩
  · have hscheduled : t.journal.polls.count t.radio.generation = 1 :=
      List.count_eq_one_of_mem hpaced.nodup (hpaced.live.mpr ⟨hpending, hstate⟩)
    have hundelivered : (delivered script).count t.radio.generation = 0 :=
      List.count_eq_zero.mpr fun hmem ↦ (hdelivered _ hmem).false
    rw [outstanding, List.count_diff, hscheduled, hundelivered]
  · obtain ⟨mode, hmode⟩ := Option.ne_none_iff_exists'.mp (hpaced.mode hstate)
    refine ⟨mode, hmode, fun accepts ↦ ?_⟩
    obtain ⟨u, p, later, hstep, hjournal, hoperation, -⟩ :=
      step_pollDue_of_live hpending hstate hmode accepts
    exact ⟨u, p, later, hstep, hjournal, hoperation⟩
  · have hscheduled : generation ∈ t.journal.polls := List.diff_subset _ _ hmem
    have hstale : generation ≠ t.radio.generation := by
      rintro rfl
      obtain ⟨hpending, hstate⟩ := hpaced.live.mp hscheduled
      exact hbusy.elim (· hpending) (· hstate)
    refine ⟨lt_of_le_of_ne (hpaced.le _ hscheduled) hstale, fun accepts ↦ ?_⟩
    exact step_pollDue_of_ignores hrested (.inl hstale)

/-! ## A scan that has been polled once -/

theorem deliversOnce_of_none (h : delivered script = []) : DeliversOnce timing script := by
  rintro before generation accepts after t rfl
  simp [delivered] at h

theorem DeliversOnce.snoc (h : DeliversOnce timing script) {x : Event × (Call → Bool)}
    (hx : ∀ generation, x.1 = .pollDue generation → ∀ t, (initial timing).run script = .ok t →
      (delivered script).count generation < t.journal.polls.count generation) :
    DeliversOnce timing (script ++ [x]) := by
  intro before generation accepts after t hsplit ht
  rcases List.eq_nil_or_concat after with rfl | ⟨after, y, rfl⟩
  · obtain ⟨rfl, hlast⟩ := List.append_inj' hsplit rfl
    cases hlast
    exact hx generation rfl t ht
  · rw [List.concat_eq_append, ← List.cons_append, ← List.append_assoc] at hsplit
    obtain ⟨rfl, -⟩ := List.append_inj' hsplit rfl
    exact h before generation accepts after t rfl ht

/-- A start and a search, up to where the radio waits for the first poll. -/
def searchBegun : List (Event × (Call → Bool)) :=
  [.ready, .request ⟨none, .start .europeUs⟩, .callback (.power true),
    .callback (.vendor 0xfc15 [0, 0, 0]), .callback .delayElapsed,
    .callback (.vendor 0xfc15 [0, 1, 0]), .callback (.vendor 0xfc15 [0, 5, 0]),
    .request ⟨none, .scanUp⟩, .callback (.vendor 0xfc15 [0, 7, 0]),
    .callback (.vendor 0xfc15 [0, 9, 0])].map fun event ↦ (event, fun _ ↦ true)

/-- A search that the first poll finds still busy has one more poll to come. -/
theorem second_poll_to_come_after_busy_search :
    let script := searchBegun ++ [(.pollDue 2, fun _ ↦ true)] ++
      [(.callback (.vendor 0xfc15 [0, 18, 1, 0, 0]), fun _ ↦ true)]
    DeliversOnce {} script ∧ ∃ t, (initial {}).run script = .ok t ∧
      t.radio.generation = 3 ∧ t.radio.pending = none ∧ t.radio.state = .scanning ∧
        (outstanding script t.journal).count 3 = 1 := by
  intro script
  have hscript : DeliversOnce {} script := by
    refine ((deliversOnce_of_none (by decide)).snoc fun generation hpoll t ht ↦ ?_).snoc ?_
    · cases hpoll
      cases ht
      decide
    · simp
  obtain ⟨t, ht, hgeneration, hpending, hstate⟩ : ∃ t, (initial {}).run script = .ok t ∧
      t.radio.generation = 3 ∧ t.radio.pending = none ∧ t.radio.state = .scanning :=
    ⟨_, rfl, rfl, rfl, rfl⟩
  have hlive := ((one_live_poll_while_resting_in_scan hscript ht).2.1 hpending hstate).1
  exact ⟨hscript, t, ht, hgeneration, hpending, hstate, hgeneration ▸ hlive⟩

end Controller

end FmTuner
