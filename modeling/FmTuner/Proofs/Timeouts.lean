import FmTuner.Proofs.Polling

/-!
# The timeout of the transition in flight

The surroundings keep one timeout: to arm it replaces what was armed before. `Journal.timeout` is
what the orders on record leave of it. Between moves it is the timeout of the transition in flight,
and as transitions are numbered in the order in which they begin, no other timeout can hit this one.
-/

namespace FmTuner

/-- What an effect makes of the timeout, which is that of a transition after a time. -/
def Effect.arm (armed : Option (Nat × Nat)) : Effect → Option (Nat × Nat)
  | .armTimeout pending after => some (pending, after)
  | .disarmTimeout => none
  | _ => armed

namespace Entry

def begunId? : Entry → Option Nat
  | .begun p _ => some p.id
  | _ => none

/-- Whether an entry concerns the timeout, or is the beginning or the end of a transition. -/
def isTimed : Entry → Bool
  | .begun .. | .resolved .. | .effect (.armTimeout ..) | .effect .disarmTimeout => true
  | _ => false

end Entry

def Pending.timeout (p : Pending) (timing : Timing) : Nat × Nat :=
  (p.id, timing.budget p.action.operation)

namespace Journal

def timeout (j : Journal) : Option (Nat × Nat) := j.effects.foldl Effect.arm none

def begunIds (j : Journal) : List Nat := j.filterMap Entry.begunId?

variable {j k : Journal}

@[simp] theorem timeout_append (j k : Journal) :
    (j ++ k).timeout = k.effects.foldl Effect.arm j.timeout := by
  rw [timeout, effects_append, List.foldl_append, ← timeout]

@[simp] theorem begunIds_append (j k : Journal) : begunIds (j ++ k) = begunIds j ++ begunIds k := by
  simp [begunIds]

theorem timeout_append_of_untimed (h : ∀ e ∈ k, e.isTimed = false) :
    (j ++ k).timeout = j.timeout := by
  rw [timeout_append]
  induction k with
  | nil => rfl
  | cons e rest ih =>
      rw [List.forall_mem_cons] at h
      have he : effects [e] = [] ∨
          ∃ f, effects [e] = [f] ∧ ∀ armed, Effect.arm armed f = armed := by
        cases e with
        | effect f =>
            refine .inr ⟨f, rfl, fun armed ↦ ?_⟩
            cases f <;> first | rfl | simp [Entry.isTimed] at h
        | _ => exact .inl rfl
      rw [← List.singleton_append, effects_append]
      rcases he with he | ⟨f, he, hf⟩
      · rw [he, List.nil_append, ih h.2]
      · rw [he, List.singleton_append, List.foldl_cons, hf, ih h.2]

theorem begunIds_append_of_untimed (h : ∀ e ∈ k, e.isTimed = false) :
    (j ++ k).begunIds = j.begunIds := by
  have hnone : k.begunIds = [] := by
    rw [begunIds, List.filterMap_eq_nil_iff]
    intro e he
    have htimed := h e he
    cases e <;> first | rfl | simp [Entry.isTimed] at htimed
  rw [begunIds_append, hnone, List.append_nil]

/-! ## The parts of a move -/

theorem untimed_ofProgress (first : Nat) (p : Progress) :
    ∀ e ∈ ofProgress first p, e.isTimed = false := by
  simp +contextual [ofProgress, or_imp, forall_and, Entry.isTimed]

theorem untimed_ofReport (id : Option RequestId) (outcome : Outcome) :
    ∀ e ∈ ofReport id outcome, e.isTimed = false := by
  cases id <;> simp [ofReport, Entry.isTimed]

theorem untimed_enter (old target : RadioState) (generation after : Nat) :
    ∀ e ∈ ofChange old target ++ ofPoll target generation after, e.isTimed = false := by
  rw [List.forall_mem_append]
  constructor
  · unfold ofChange
    split
    · simp
    · cases target <;> simp [Entry.isTimed]
  · unfold ofPoll
    split <;> simp [Entry.isTimed]

theorem untimed_ofStart (p : Pending) : ∀ e ∈ ofStart p, e.isTimed = false := by
  unfold ofStart
  split <;> simp [Entry.isTimed]

theorem untimed_ofReadings (p : Pending) (a : Attributes) :
    ∀ e ∈ ofReadings p a, e.isTimed = false := by
  rw [ofReadings, List.forall_mem_append]
  constructor
  · split
    · split <;> simp [Entry.isTimed]
    · simp
  · split <;> simp [Entry.isTimed]

/-! ## What a journal shows of the timeout -/

/-- The timeout that is armed is that of the transition in flight. The last transition to begin is
the only one that can be in flight, and those that have ended are not. -/
structure Guards (j : Journal) (timing : Timing) (c : Controller) : Prop where
  budgets : c.timing = timing
  timeout : j.timeout = c.pending.map fun p ↦ p.timeout timing
  begun : j.begunIds = List.range' 1 c.begun
  current : ∀ p, c.pending = some p → p.id = c.begun
  ended : ∀ p timedOut d, .resolved p timedOut d ∈ j →
    p.id ≤ c.begun ∧ (c.pending ≠ none → p.id < c.begun)

variable {timing : Timing} {c d : Controller} {p : Pending}

theorem Guards.extend (h : j.Guards timing c) (hk : ∀ e ∈ k, e.isTimed = false)
    (htiming : d.timing = c.timing) (hbegun : d.begun = c.begun)
    (hpending : d.pending = c.pending) : (j ++ k).Guards timing d := by
  constructor
  · rw [htiming, h.budgets]
  · rw [timeout_append_of_untimed hk, h.timeout, hpending]
  · rw [begunIds_append_of_untimed hk, h.begun, hbegun]
  · rw [hpending, hbegun]
    exact h.current
  · intro q timedOut later hmem
    rw [hpending, hbegun]
    rcases List.mem_append.mp hmem with hmem | hmem
    · exact h.ended q timedOut later hmem
    · simpa [Entry.isTimed] using hk _ hmem

theorem Guards.goOn (h : j.Guards timing c) (hpending : c.pending = some p) {action : Action}
    (hoperation : action.operation = p.action.operation) :
    j.Guards timing { c with pending := some { p with action } } := by
  constructor
  · exact h.budgets
  · rw [h.timeout, hpending, Option.map_some, Option.map_some, Pending.timeout, Pending.timeout,
      hoperation]
  · exact h.begun
  · rintro q ⟨⟩
    exact h.current p hpending
  · intro q timedOut later hmem
    obtain ⟨hle, hlt⟩ := h.ended q timedOut later hmem
    exact ⟨hle, fun _ ↦ hlt (by simp [hpending])⟩

theorem Guards.begin (h : j.Guards timing c) (hpending : c.pending = none)
    (hp : p.id = c.begun + 1) (generation : Nat) :
    (j ++ [Entry.begun p c]).Guards timing { c with generation, begun := c.begun + 1 } := by
  constructor
  · exact h.budgets
  · rw [timeout_append]
    exact h.timeout
  · have hid : begunIds [Entry.begun p c] = [c.begun + 1] := by rw [← hp]; rfl
    rw [begunIds_append, hid, h.begun, List.range'_concat, Nat.one_mul, Nat.add_comm 1]
  · simp [hpending]
  · intro q timedOut later hmem
    have hold : .resolved q timedOut later ∈ j := by simpa using hmem
    exact ⟨(h.ended q timedOut later hold).1.trans (Nat.le_succ _), by simp [hpending]⟩

theorem Guards.arm (h : j.Guards timing c) (hp : p.id = c.begun)
    (hended : ∀ q timedOut d, .resolved q timedOut d ∈ j → q.id < c.begun) :
    (j ++ [Entry.effect (.armTimeout p.id (c.timing.budget p.action.operation))]).Guards timing
      { c with pending := some p } := by
  constructor
  · exact h.budgets
  · rw [timeout_append, h.budgets]
    rfl
  · rw [begunIds_append, h.begun]
    exact List.append_nil _
  · rintro q ⟨⟩
    exact hp
  · intro q timedOut later hmem
    have hlt := hended q timedOut later (by simpa using hmem)
    exact ⟨hlt.le, fun _ ↦ hlt⟩

theorem Guards.disarm (h : j.Guards timing c) {armed : Bool}
    (harmed : c.pending ≠ none → armed = true) :
    (j ++ if armed then [Entry.effect .disarmTimeout] else []).Guards timing
      { c with pending := none } := by
  constructor
  · exact h.budgets
  · cases armed with
    | true =>
        rw [timeout_append]
        rfl
    | false =>
        -- Only what was never in flight ends without an order to disarm.
        have hpending : c.pending = none := by
          by_contra hne
          simpa using harmed hne
        simpa [hpending] using h.timeout
  · cases armed <;> simp [← h.begun, begunIds, Entry.begunId?]
  · simp
  · intro q timedOut later hmem
    have hold : .resolved q timedOut later ∈ j := by
      cases armed <;> simpa using hmem
    exact ⟨(h.ended q timedOut later hold).1, by simp⟩

theorem Guards.resolve (h : j.Guards timing c) (hpending : c.pending = none)
    (hp : p.id ≤ c.begun) (timedOut : Bool) (d : Controller) :
    (j ++ [Entry.resolved p timedOut d]).Guards timing c := by
  constructor
  · exact h.budgets
  · rw [timeout_append]
    exact h.timeout
  · rw [begunIds_append, h.begun]
    exact List.append_nil _
  · exact h.current
  · intro q late later hmem
    refine ⟨?_, fun hne ↦ absurd hpending hne⟩
    rw [List.mem_append, List.mem_singleton] at hmem
    rcases hmem with hmem | hmem
    · exact (h.ended q late later hmem).1
    · cases hmem
      exact hp

end Journal

/-! ## Moves -/

namespace Turn

variable {accepts : Call → Bool} {e : Option Event} {t u : Turn} {p : Pending}
  {progress : Progress} {timing : Timing}

theorem Taken.guards {r : Request} (htaken : Taken e t r u)
    (h : t.journal.Guards timing t.radio) : u.journal.Guards timing u.radio := by
  cases htaken with
  | queued =>
      rw [take_journal]
      exact h.extend (by simp [Entry.isTimed]) rfl rfl rfl
  | poll => exact h

theorem guards_launch (h : t.journal.Guards timing t.radio) (hpending : t.radio.pending = none)
    (hp : p.id = t.radio.begun + 1) (notices : List Notification) :
    (t.launch p notices).journal.Guards timing (t.launch p notices).radio := by
  rw [launch_journal, List.append_cons]
  refine (h.begin hpending hp (t.radio.generation + 1)).extend ?_ rfl rfl rfl
  simp [Entry.isTimed]

theorem guards_hold (h : t.journal.Guards timing t.radio) (hpending : t.radio.pending = some p)
    (hoperation : progress.action.operation = p.action.operation) :
    (t.hold p progress).journal.Guards timing (t.hold p progress).radio := by
  rw [hold_journal]
  exact (h.goOn hpending hoperation).extend (Journal.untimed_ofProgress _ _) (by simp) (by simp)
    (by simp)

theorem guards_settle (h : t.journal.Guards timing t.radio) (hp : p.id = t.radio.begun)
    {armed : Bool} (harmed : t.radio.pending ≠ none → armed = true) (timedOut : Bool) :
    (t.settle p progress armed timedOut).journal.Guards timing
      (t.settle p progress armed timedOut).radio := by
  let q : Pending := { p with action := progress.action }
  have hprogress := h.extend (d := t.radio)
    (Journal.untimed_ofProgress t.radio.arrivals progress) rfl rfl rfl
  have hentered := (hprogress.disarm harmed).extend (Journal.untimed_enter t.radio.state
    (resolution q timedOut).1 t.radio.generation t.radio.timing.pollInterval) rfl rfl rfl
  have hread := (hentered.extend (Journal.untimed_ofStart q) rfl rfl rfl).extend
    (Journal.untimed_ofReadings q progress.attributes) rfl rfl rfl
  have hresolved := hread.resolve (p := q) rfl hp.le timedOut
    ((t.settling progress).resolved q timedOut)
  have hreported := hresolved.extend (d := (t.settle p progress armed timedOut).radio)
    (Journal.untimed_ofReport p.request (resolution q timedOut).2)
    (by simp [Controller.resolved]) (by simp [Controller.resolved]) (by simp [Controller.resolved])
  rw [settle_journal, Journal.ofEnd]
  simpa [q, settling, List.append_assoc] using hreported

theorem Move.guards (hmove : Move accepts e t u) (h : t.journal.Guards timing t.radio) :
    u.journal.Guards timing u.radio := by
  cases hmove with
  | ready =>
      rw [enter_journal, List.append_assoc]
      exact h.extend (Journal.untimed_enter _ _ _ _) (by simp) (by simp) (by simp)
  | arrive r =>
      rw [enqueue_journal]
      exact h.extend (by simp [Entry.isTimed]) rfl rfl rfl
  | decline htaken =>
      rw [report_journal]
      exact (htaken.guards h).extend (Journal.untimed_ofReport _ _) (by simp) (by simp) (by simp)
  | @begin _ _ v r destination plan progress htaken hroute hplan hbegins hstatus =>
      let p := v.radio.transition r destination plan.action
      have hv := htaken.guards h
      have hlaunch := guards_launch (p := p) hv htaken.pending rfl plan.notices
      have hprogress := hlaunch.extend (d := (v.launch p plan.notices).radio)
        (Journal.untimed_ofProgress v.radio.arrivals progress) rfl rfl rfl
      have hoperation : progress.action.operation = r.operation :=
        hbegins.same.1.trans (Plan.built_of_build hplan).action.1
      -- All that have ended began before this one.
      have hended : ∀ q timedOut d, .resolved q timedOut d ∈ (v.launch p plan.notices).journal ++
          Journal.ofProgress v.radio.arrivals progress → q.id < v.radio.begun + 1 := by
        intro q timedOut d hmem
        rw [launch_journal, List.append_assoc] at hmem
        rcases List.mem_append.mp hmem with hmem | hmem
        · exact Nat.lt_succ_of_le (hv.ended q timedOut d hmem).1
        · simp [Journal.ofProgress] at hmem
      have harmed := hprogress.arm (p := { p with action := progress.action }) rfl hended
      rw [emit_journal, hold_journal]
      have hradio := harmed.extend (k := [])
        (d := (((v.launch p plan.notices).hold p progress).emit
          (.armTimeout (v.radio.begun + 1) (v.radio.timing.budget r.operation))).radio)
        (by simp) (by simp) (by simp) (by simp)
      simpa [p, hoperation, Controller.transition] using hradio
  | flash htaken =>
      exact guards_settle (guards_launch (htaken.guards h) htaken.pending rfl _) rfl
        (fun hne ↦ absurd htaken.pending hne) false
  | advance hpending hadvances hstatus => exact guards_hold h hpending hadvances.same.1
  | finish hpending => exact guards_settle h (h.current _ hpending) (fun _ ↦ rfl) false
  | expire hpending => exact guards_settle h (h.current _ hpending) (fun _ ↦ rfl) true

end Turn

namespace Controller

variable {timing : Timing} {script : List (Event × (Call → Bool))} {t : Turn}

theorem run_guards (h : (initial timing).run script = .ok t) :
    t.journal.Guards timing t.radio := by
  have hinitial : Journal.Guards [] timing (initial timing) := by
    refine ⟨rfl, rfl, rfl, ?_, ?_⟩
    · intro p hp
      cases hp
    · intro p timedOut d hmem
      cases hmem
  exact (run_induction (P := fun t ↦ t.journal.Guards timing t.radio) hinitial
    (fun _ _ _ _ _ ht _ _ hmove ↦ hmove.guards ht)
    (fun _ _ _ ht _ hmove ↦ hmove.guards ht) h).1

/-- A timeout that is not that of the transition in flight does nothing. -/
theorem step_timeout_of_ignores {c : Controller} (hrested : c.Rested) {id : Nat}
    (h : c.Ignores (.timeout id)) (accepts : Call → Bool) :
    c.step accepts (.timeout id) = .ok { radio := c } := by
  have hexpire : Turn.expire { radio := c } id = .ok { radio := c } := by
    rw [Turn.expire]
    cases hpending : c.pending with
    | none => rfl
    | some p => exact if_pos (h p hpending)
  rw [step, if_neg (by simp), Turn.react, hexpire]
  exact Turn.drainWith_of_rested hrested _

/-- After every run the timeout that is armed is that of the transition in flight, with the budget
of its operation, and none is armed if there is no such transition. No two transitions have the same
number, so that any other timeout does nothing; nor does that of a transition which has ended. -/
theorem pending_is_guarded (h : (initial timing).run script = .ok t) :
    t.journal.effects.foldl Effect.arm none =
      t.radio.pending.map (fun p ↦ (p.id, timing.budget p.action.operation)) ∧
    t.journal.begunIds = List.range' 1 t.journal.begunIds.length ∧
    (∀ p, t.radio.pending = some p → p.id = t.journal.begunIds.length) ∧
    (∀ id accepts, (∀ p, t.radio.pending = some p → p.id ≠ id) →
      t.radio.step accepts (.timeout id) = .ok { radio := t.radio }) ∧
    (∀ p timedOut d accepts, .resolved p timedOut d ∈ t.journal →
      t.radio.step accepts (.timeout p.id) = .ok { radio := t.radio }) := by
  have hguards := run_guards h
  have hrested := (run_paced h).2.2
  have hlength : t.journal.begunIds.length = t.radio.begun := by
    rw [hguards.begun, List.length_range']
  refine ⟨hguards.timeout, ?_, fun p hp ↦ ?_, fun id accepts hid ↦ ?_,
    fun p timedOut d accepts hmem ↦ ?_⟩
  · rw [hlength]
    exact hguards.begun
  · rw [hlength]
    exact hguards.current p hp
  · exact step_timeout_of_ignores hrested hid accepts
  · refine step_timeout_of_ignores hrested (fun q hq ↦ ?_) accepts
    have hlt := (hguards.ended p timedOut d hmem).2 (by simp [hq])
    rw [hguards.current q hq]
    exact hlt.ne'

/-- Of a search whose first poll is in flight, the timeouts of the start and of the search itself
are stale. -/
theorem poll_is_guarded :
    ∃ t p, (initial {}).run (searchBegun ++ [(.pollDue 2, fun _ ↦ true)]) = .ok t ∧
      t.radio.pending = some p ∧ p.action.operation = .pollScan .up ∧ p.id = 3 ∧
      t.journal.effects.foldl Effect.arm none = some (3, 2000) ∧
      t.radio.step (fun _ ↦ true) (.timeout 1) = .ok { radio := t.radio } ∧
      t.radio.step (fun _ ↦ true) (.timeout 2) = .ok { radio := t.radio } := by
  obtain ⟨t, ht⟩ : ∃ t, (initial {}).run (searchBegun ++ [(.pollDue 2, fun _ ↦ true)]) = .ok t :=
    ⟨_, rfl⟩
  obtain ⟨p, hp, hpoll, hlength⟩ : ∃ p, t.radio.pending = some p ∧
      p.action.operation = .pollScan .up ∧ t.journal.begunIds.length = 3 := by
    cases ht
    exact ⟨_, rfl, rfl, rfl⟩
  obtain ⟨htimeout, -, hids, hstale, -⟩ := pending_is_guarded ht
  have hid : p.id = 3 := (hids p hp).trans hlength
  have hother : ∀ id, id ≠ 3 → ∀ q, t.radio.pending = some q → q.id ≠ id := by
    intro id hne q hq
    cases hp.symm.trans hq
    exact hid ▸ hne.symm
  rw [hp, Option.map_some, hid, hpoll] at htimeout
  exact ⟨t, p, ht, hp, hpoll, hid, htimeout, hstale 1 _ (hother 1 (by decide)),
    hstale 2 _ (hother 2 (by decide))⟩

end Controller

end FmTuner
