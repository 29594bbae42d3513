import FmTuner.Proofs.Failure

/-!
# What holds between events

Each move touches several fields of the controller, in an order of its own. Between moves they fit
together: what is in flight belongs to the state that the radio is in, and a scan is on exactly in
the scanning state. The state itself changes when the hardware becomes ready, and otherwise only
where a transition ends; `Journal.passages` reads these changes off the ends of transitions, and
`Turn.Traced` says that no others are announced.
-/

namespace FmTuner

/-- The change of state in which a transition has ended, from its source to where it led. -/
def Entry.passage? : Entry → Option (RadioState × RadioState)
  | .resolved p timedOut _ =>
      if (Turn.resolution p timedOut).1 = p.source then none
      else some (p.source, (Turn.resolution p timedOut).1)
  | _ => none

namespace Journal

/-- The changes of state in which transitions have ended, in order. -/
def passages (j : Journal) : List (RadioState × RadioState) := j.filterMap Entry.passage?

@[simp] theorem passages_append (j k : Journal) :
    passages (j ++ k) = passages j ++ passages k := by
  simp [passages]

theorem passages_eq_nil {j : Journal} (h : ∀ e ∈ j, e.isMilestone = false) : passages j = [] := by
  refine List.filterMap_eq_nil_iff.mpr fun e he ↦ ?_
  have hplain := h e he
  cases e with
  | resolved => simp [Entry.isMilestone] at hplain
  | _ => rfl

@[simp] theorem passages_ofReport (id : Option RequestId) (outcome : Outcome) :
    passages (ofReport id outcome) = [] := by
  cases id <;> rfl

@[simp] theorem passages_ofProgress (first : Nat) (p : Progress) :
    passages (ofProgress first p) = [] :=
  passages_eq_nil (not_milestone_ofProgress first p)

@[simp] theorem passages_ofEnd (c : Controller) (p : Pending) (armed timedOut : Bool) :
    passages (ofEnd c p armed timedOut) =
      if (Turn.resolution p timedOut).1 = p.source then []
      else [(p.source, (Turn.resolution p timedOut).1)] := by
  have hfinish : passages (ofFinish c p armed timedOut) = [] :=
    passages_eq_nil fun e he ↦ (quiet_ofFinish c p armed timedOut e he).2
  have hresolved : ∀ j : Journal, passages (.resolved p timedOut (c.resolved p timedOut) :: j) =
      (if (Turn.resolution p timedOut).1 = p.source then []
        else [(p.source, (Turn.resolution p timedOut).1)]) ++ passages j := by
    intro j
    by_cases htarget : (Turn.resolution p timedOut).1 = p.source <;>
      simp [passages, Entry.passage?, htarget]
  rw [ofEnd_eq, passages_append, hfinish, hresolved, passages_ofReport, List.append_nil,
    List.nil_append]

end Journal

/-! ## Where transitions lead -/

theorem RadioState.ne_starting_of_accept {state destination : RadioState} {operation : Operation}
    (h : route state operation = .accept destination) :
    state ≠ .starting ∧ destination ≠ .starting := by
  cases state <;> cases operation <;>
    simp [route, Route.whenIdle, Route.whenOn, Route.whenScanning, Operation.setsProperty] at h <;>
      subst h <;> simp

/-- No transition leads to where none can begin but for the error state. -/
theorem Turn.resolution_ne {p : Pending} {operation : Operation}
    (h : route p.source operation = .accept p.destination) (timedOut : Bool) :
    (resolution p timedOut).1 ≠ .invalid ∧ (resolution p timedOut).1 ≠ .starting := by
  obtain ⟨⟨hinvalid, -⟩, ⟨hinvalid', -⟩, -⟩ := RadioState.states_of_accept h
  obtain ⟨hstarting, hstarting'⟩ := RadioState.ne_starting_of_accept h
  unfold resolution
  split
  · exact ⟨hinvalid', hstarting'⟩
  · exact ⟨hinvalid, hstarting⟩
  · exact ⟨hinvalid, hstarting⟩
  all_goals exact ⟨by simp, by simp⟩

namespace Turn

/-- What a turn keeps about changes of state: after the hardware became ready, those that were
announced are those in which transitions have ended. -/
structure Traced (t : Turn) : Prop where
  settled : t.radio.state ≠ .starting
  before : t.radio.state = .invalid → t.journal.changes = [] ∧ t.journal.passages = []
  since : t.radio.state ≠ .invalid →
    t.journal.changes = (.invalid, .idle) :: t.journal.passages

variable {accepts : Call → Bool} {e : Option Event} {t u : Turn} {p : Pending}
  {progress : Progress} {k : Journal}

/-- Nothing changes but when the hardware becomes ready and where a transition ends. -/
theorem Traced.extend (h : t.Traced) (hjournal : u.journal = t.journal ++ k)
    (hchanges : k.changes = []) (hpassages : k.passages = [])
    (hstate : u.radio.state = t.radio.state) : u.Traced := by
  refine ⟨hstate ▸ h.settled, ?_, ?_⟩ <;>
    rw [hjournal, hstate, Journal.changes_append, Journal.passages_append, hchanges, hpassages,
      List.append_nil, List.append_nil]
  · exact h.before
  · exact h.since

theorem Taken.traced {r : Request} (htaken : Taken e t r u) (h : t.Traced) : u.Traced := by
  cases htaken with
  | queued => exact h.extend (take_journal ..) rfl rfl rfl
  | poll => exact h

theorem Traced.launch (h : t.Traced) (p : Pending) {notices : List Notification}
    (hnotices : ∀ n ∈ notices, n.isScanResult = true) : (t.launch p notices).Traced := by
  have hbegun : ∀ j : Journal, Journal.passages (.begun p t.radio :: j) = Journal.passages j :=
    fun _ ↦ rfl
  refine h.extend (launch_journal ..) ?_ ?_ rfl
  · exact Journal.changes_notices hnotices
  · rw [hbegun]
    exact Journal.passages_eq_nil (by simp [Entry.isMilestone])

theorem Traced.hold (h : t.Traced) (p : Pending) (progress : Progress) :
    (t.hold p progress).Traced :=
  h.extend (hold_journal ..) (Journal.changes_ofProgress _ _) (Journal.passages_ofProgress _ _)
    (by simp)

/-- The end of a transition announces the change from its source to where it leads. -/
theorem Traced.settle (h : t.Traced) {operation : Operation} {armed timedOut : Bool}
    (hsource : p.source = t.radio.state)
    (hroute : route p.source operation = .accept p.destination) :
    (t.settle p progress armed timedOut).Traced := by
  let q : Pending := { p with action := progress.action }
  have hstate : (t.settle p progress armed timedOut).radio.state = (resolution q timedOut).1 :=
    (settle_state p progress armed timedOut).1
  obtain ⟨hinvalid, hstarting⟩ := resolution_ne (p := q) hroute timedOut
  have hready : t.radio.state ≠ .invalid := hsource ▸ (RadioState.states_of_accept hroute).1.1
  have hbefore : (t.settling progress).state = q.source := hsource.symm
  have hend : Journal.changes (Journal.ofEnd (t.settling progress) q armed timedOut) =
      Journal.passages (Journal.ofEnd (t.settling progress) q armed timedOut) := by
    rw [Journal.changes_ofEnd, Journal.passages_ofEnd, hbefore]
  refine ⟨hstate ▸ hstarting, fun hnow ↦ absurd (hstate ▸ hnow) hinvalid, fun _ ↦ ?_⟩
  rw [settle_journal]
  simp only [Journal.changes_append, Journal.passages_append, Journal.changes_ofProgress,
    Journal.passages_ofProgress, List.append_nil]
  rw [hend, h.since hready, List.cons_append]

/-- What is in flight goes through the route that its source and its operation have. -/
theorem Move.traced (hmove : Move accepts e t u) (h : t.Traced) (hrouted : t.radio.Routed) :
    u.Traced := by
  cases hmove with
  | ready hinvalid =>
      obtain ⟨hchanges, hpassages⟩ := h.before hinvalid
      have hquiet := Journal.passages_eq_nil (Journal.not_milestone_enter t.radio.state .idle
        t.radio.generation t.radio.timing.pollInterval)
      refine ⟨by simp, by simp, fun _ ↦ ?_⟩
      rw [enter_journal, List.append_assoc, Journal.passages_append, hquiet, hpassages]
      simp [hchanges, hinvalid]
  | arrive r => exact h.extend (enqueue_journal ..) rfl rfl rfl
  | decline htaken =>
      refine (htaken.traced h).extend (report_journal ..) ?_ ?_ (by simp)
      · exact Journal.changes_ofReport _ _
      · exact Journal.passages_ofReport _ _
  | @begin _ _ v r destination plan progress htaken hroute hplan =>
      have hlaunch := (htaken.traced h).launch (v.radio.transition r destination plan.action)
        (Plan.built_of_build hplan).isScanResult
      exact (hlaunch.hold _ progress).extend (emit_journal ..) rfl rfl rfl
  | @flash _ _ v r destination plan progress htaken hroute hplan =>
      have hlaunch := (htaken.traced h).launch (v.radio.transition r destination plan.action)
        (Plan.built_of_build hplan).isScanResult
      exact hlaunch.settle rfl hroute
  | advance => exact h.hold _ _
  | finish hpending =>
      obtain ⟨hsource, hroute⟩ := hrouted _ hpending
      exact h.settle hsource (hsource.symm ▸ hroute)
  | expire hpending =>
      obtain ⟨hsource, hroute⟩ := hrouted _ hpending
      exact h.settle hsource (hsource.symm ▸ hroute)

theorem settle_ne_invalid {operation : Operation} {armed timedOut : Bool}
    (h : route p.source operation = .accept p.destination) :
    (t.settle p progress armed timedOut).radio.state ≠ .invalid := by
  rw [(settle_state p progress armed timedOut).1]
  exact (resolution_ne (p := { p with action := progress.action }) h timedOut).1

/-- A radio is invalid until the hardware becomes ready, and never again. -/
theorem Move.invalid_iff (hmove : Move accepts e t u) (hrouted : t.radio.Routed) :
    u.radio.state = .invalid ↔ t.radio.state = .invalid ∧ e ≠ some .ready := by
  have hquiet : ∀ {r : Request} {v : Turn}, Taken e t r v → e ≠ some .ready := by
    intro r v htaken
    cases htaken <;> simp
  cases hmove with
  | ready => simp
  | arrive r => simp
  | decline htaken => simp [htaken.state, hquiet htaken]
  | begin htaken => simp [htaken.state, hquiet htaken]
  | flash htaken hroute =>
      refine iff_of_false (settle_ne_invalid hroute) fun hboth ↦ ?_
      exact (RadioState.states_of_accept hroute).1.1 (htaken.state.trans hboth.1)
  | advance => simp
  | finish hpending =>
      obtain ⟨hsource, hroute⟩ := hrouted _ hpending
      refine iff_of_false (settle_ne_invalid (hsource.symm ▸ hroute)) fun hboth ↦ ?_
      exact (RadioState.states_of_accept hroute).1.1 hboth.1
  | expire hpending =>
      obtain ⟨hsource, hroute⟩ := hrouted _ hpending
      refine iff_of_false (settle_ne_invalid (hsource.symm ▸ hroute)) fun hboth ↦ ?_
      exact (RadioState.states_of_accept hroute).1.1 hboth.1

end Turn

namespace Controller

/-! ## Coherence -/

/-- A transition in flight fits the controller. -/
structure Carries (c : Controller) (p : Pending) : Prop where
  source : p.source = c.state
  route : route p.source p.action.operation = .accept p.destination
  running : p.action.status = .running
  index : p.action.index < p.action.commands.length

/-- What holds of a controller between events. -/
structure Coherent (c : Controller) : Prop where
  /-- A start in flight is only reported as starting. -/
  settled : c.state ≠ .starting
  scan : c.scanMode.isSome = true ↔ c.state = .scanning
  empty : c.state = .invalid ∨ c.state = .error → c.pending = none
  flight : ∀ p, c.pending = some p → c.Carries p

variable {timing : Timing} {script : List (Event × (Call → Bool))} {accepts : Call → Bool}
  {event : Event} {c : Controller} {t u : Turn}

theorem initial_traced (timing : Timing) : Turn.Traced { radio := initial timing } := by
  refine ⟨?_, fun _ ↦ ⟨rfl, rfl⟩, ?_⟩ <;> simp [initial]

theorem run_traced (h : (initial timing).run script = .ok t) : t.Traced ∧ t.radio.Routed :=
  (run_induction (P := fun t ↦ t.Traced ∧ t.radio.Routed)
    ⟨initial_traced timing, initial_routed timing⟩
    (fun _ _ _ _ _ ht _ _ hmove ↦ ⟨hmove.traced ht.1 ht.2, hmove.routed ht.2⟩)
    (fun _ _ _ ht _ hmove ↦ ⟨hmove.traced ht.1 ht.2, hmove.routed ht.2⟩) h).1

theorem run_coherent (h : (initial timing).run script = .ok t) : t.radio.Coherent := by
  obtain ⟨htraced, hrouted⟩ := run_traced h
  obtain ⟨hpaced, hsteady, -⟩ := run_paced h
  have haccounts := run_accounts h
  refine ⟨htraced.settled, ⟨?_, ?_⟩, ?_, fun p hp ↦ ?_⟩
  · intro hmode
    by_contra hleft
    rw [haccounts.scope hleft] at hmode
    cases hmode
  · exact fun hscanning ↦ Option.isSome_iff_ne_none.mpr (hpaced.mode hscanning)
  · -- Nothing that is in flight was accepted in one of these states.
    intro hstate
    refine Option.eq_none_iff_forall_ne_some.mpr fun p hp ↦ ?_
    obtain ⟨hinvalid, herror⟩ := (RadioState.states_of_accept (hrouted p hp).2).1
    exact hstate.elim hinvalid herror
  · obtain ⟨hsource, hroute⟩ := hrouted p hp
    obtain ⟨x, before, rounds, next, rest, -, hunderway⟩ := haccounts.aboard p hp
    refine ⟨hsource, ?_, hsteady p hp, ?_⟩
    · rwa [hsource]
    · rw [hunderway.action]
      simp

/-! ## Changes of state -/

theorem step_invalid_iff (hsteady : c.Steady) (hrouted : c.Routed)
    (h : c.step accepts event = .ok u) :
    u.radio.state = .invalid ↔ c.state = .invalid ∧ event ≠ .ready := by
  rcases step_moves hsteady h with ⟨rfl, hready, rfl⟩ | ⟨v, hcause, hmoves, -⟩
  · simp [hready]
  · have hv : (v.radio.state = .invalid ↔ c.state = .invalid ∧ event ≠ .ready) ∧
        v.radio.Routed := by
      rcases hcause with ⟨hignores, rfl⟩ | hmove
      · refine ⟨?_, hrouted⟩
        refine ⟨fun hinvalid ↦ ⟨hinvalid, ?_⟩, And.left⟩
        rintro rfl
        exact hignores hinvalid
      · have hiff := hmove.invalid_iff hrouted
        exact ⟨by simpa using hiff, hmove.routed hrouted⟩
    refine (Turn.keeps_of_moves (Q := fun t ↦
      (t.radio.state = .invalid ↔ c.state = .invalid ∧ event ≠ .ready) ∧ t.radio.Routed)
        (fun t w ht hmove ↦ ⟨?_, hmove.routed ht.2⟩) hmoves hv).1
    rw [hmove.invalid_iff ht.2, ht.1]
    simp

theorem run_invalid_iff (h : (initial timing).run script = .ok t) :
    t.radio.state = .invalid ↔ .ready ∉ script.map Prod.fst := by
  induction script using List.reverseRecOn generalizing t with
  | nil =>
      cases Except.ok.inj h
      simp [initial]
  | append_singleton before x ih =>
      obtain ⟨u, v, hu, hv, rfl⟩ := run_append h
      obtain ⟨-, hsteady, -⟩ := run_paced hu
      have hstep := step_invalid_iff hsteady (run_traced hu).2 (run_single hv)
      rw [Turn.after_radio, hstep, ih hu]
      simp [eq_comm]

/-- A step announces that the hardware has become ready, if it does, and the changes in which
transitions end. -/
theorem step_changes (h : (initial timing).run script = .ok t)
    (hstep : t.radio.step accepts event = .ok u) :
    u.journal.changes =
      (if event = .ready ∧ t.radio.state = .invalid then [(.invalid, .idle)] else []) ++
        u.journal.passages := by
  obtain ⟨htraced, hrouted⟩ := run_traced h
  obtain ⟨-, hsteady, -⟩ := run_paced h
  have hinvalid := step_invalid_iff hsteady hrouted hstep
  have hlater := (run_traced (run_snoc h hstep)).1
  by_cases hbefore : t.radio.state = .invalid
  · obtain ⟨hchanges, hpassages⟩ := htraced.before hbefore
    by_cases hready : event = .ready
    · have hsince := hlater.since fun hu ↦ (hinvalid.mp hu).2 hready
      simpa [hbefore, hready, hchanges, hpassages] using hsince
    · have hstill := hlater.before (hinvalid.mpr ⟨hbefore, hready⟩)
      rw [Journal.changes_append, Journal.passages_append, hchanges, hpassages, List.nil_append,
        List.nil_append] at hstill
      simp [hready, hstill]
  · have hsince := hlater.since fun hu ↦ hbefore (hinvalid.mp hu).1
    simpa [hbefore, htraced.since hbefore] using hsince

/-- Between any two events the controller is coherent, and its state is the one announced last.
What is announced is that the hardware has become ready, which happens once, and after that the
changes in which transitions have ended; so it is in the run as a whole and in every step. -/
theorem coherent_between_events (h : (initial timing).run script = .ok t) :
    t.radio.Coherent ∧
    (t.radio.state = .invalid ↔ .ready ∉ script.map Prod.fst) ∧
    t.radio.state = t.journal.state ∧
    t.journal.changes =
      (if t.radio.state = .invalid then [] else [(.invalid, .idle)]) ++ t.journal.passages ∧
    ∀ event accepts u, t.radio.step accepts event = .ok u →
      u.journal.changes =
          (if event = .ready ∧ t.radio.state = .invalid then [(.invalid, .idle)] else []) ++
            u.journal.passages ∧
        u.radio.state = (u.journal.changes.getLast?.map Prod.snd).getD t.radio.state := by
  obtain ⟨htraced, -⟩ := run_traced h
  have hstate := (run_ordered h).state
  refine ⟨run_coherent h, run_invalid_iff h, hstate, ?_, fun event accepts u hstep ↦ ?_⟩
  · by_cases hinvalid : t.radio.state = .invalid
    · simp [hinvalid, htraced.before hinvalid]
    · simp [hinvalid, htraced.since hinvalid]
  · refine ⟨step_changes h hstep, ?_⟩
    have hlater := (run_ordered (run_snoc h hstep)).state
    rwa [Journal.state_append, ← hstate] at hlater

/-- A poll in flight belongs to the search that a start and a search have led to. -/
theorem coherent_during_poll :
    ∃ t, (initial {}).run (searchBegun ++ [(.pollDue 2, fun _ ↦ true)]) = .ok t ∧
      t.radio.pending.isSome = true ∧ t.radio.Coherent ∧
        t.journal.passages = [(.idle, .started), (.started, .scanning)] := by
  obtain ⟨t, ht, hpending, hpassages⟩ :
      ∃ t, (initial {}).run (searchBegun ++ [(.pollDue 2, fun _ ↦ true)]) = .ok t ∧
        t.radio.pending.isSome = true ∧
          t.journal.passages = [(.idle, .started), (.started, .scanning)] := ⟨_, rfl, rfl, rfl⟩
  exact ⟨t, ht, hpending, (coherent_between_events ht).1, hpassages⟩

end Controller

end FmTuner
