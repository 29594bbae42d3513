import FmTuner.Proofs.Backlog
import FmTuner.Proofs.Polling
import FmTuner.Proofs.Ranges

/-!
# Sweeping the queue

A sweep goes along the queue from its front, passes over what the radio defers and dispatches all
else; whenever the state has changed it starts over. `Turn.Sweeps` describes sweeps with neither a
bound on their length nor a look ahead. Every sweep comes to an end, it ends as `Turn.drain` says,
and what it leaves behind has to wait.
-/

namespace FmTuner

namespace RadioState

variable {state : RadioState} {operation : Operation}

/-- Nothing waits in a state without a scan. -/
theorem defers_of_settled
    (h : state = .idle ∨ state = .started ∨ state = .paused ∨ state = .error)
    (operation : Operation) : state.defers operation = false := by
  rcases h with rfl | rfl | rfl | rfl <;> cases operation <;>
    simp [defers, route, Route.whenIdle, Route.whenOn, Operation.setsProperty]

/-- What has to wait for the end of a scan. -/
theorem defers_scanning_iff :
    scanning.defers operation = true ↔
      (∃ f, operation = .setFrequency f) ∨ operation = .pause ∨ operation = .resume ∨
        operation = .scanUp ∨ operation = .scanDown ∨ operation = .fullScan := by
  cases operation <;> simp [defers, route, Route.whenScanning, Operation.setsProperty]

end RadioState

namespace Turn

variable {accepts : Call → Bool} {t u : Turn} {result other : Except Crash Turn} {passed : Nat}
  {behind ahead : List Queued} {q : Queued}

/-- What a sweep does next that has passed over the first `passed` requests of the queue: nothing
more once a transition is in flight or the queue has come to its end. As long as the state is the
same, what has been passed over is not looked at again. -/
def sweep? (accepts : Call → Bool) (passed : Nat) (t : Turn) : Option (Except Crash (Nat × Turn)) :=
  match t.radio.pending, t.radio.queue[passed]? with
  | none, some q =>
      if t.radio.defers q then some (.ok (passed + 1, t))
      else some do
        let u ← Turn.dispatch accepts
          (t.take q (t.radio.queue.take passed) (t.radio.queue.drop (passed + 1))) q.request
        .ok (if u.radio.state = t.radio.state then passed else 0, u)
  | _, _ => none

/-- A sweep that goes on until there is nothing more to do, with what comes of it. -/
inductive Sweeps (accepts : Call → Bool) : Nat → Turn → Except Crash Turn → Prop where
  | ended {passed : Nat} {t : Turn} (hend : sweep? accepts passed t = none) :
      Sweeps accepts passed t (.ok t)
  | crash {passed : Nat} {t : Turn} {crash : Crash}
      (hcrash : sweep? accepts passed t = some (.error crash)) :
      Sweeps accepts passed t (.error crash)
  | next {passed passed' : Nat} {t u : Turn} {result : Except Crash Turn}
      (hnext : sweep? accepts passed t = some (.ok (passed', u)))
      (hrest : Sweeps accepts passed' u result) : Sweeps accepts passed t result

/-! ## Sweeps come to one end -/

theorem Sweeps.unique (h : Sweeps accepts passed t result) (h' : Sweeps accepts passed t other) :
    result = other := by
  induction h with
  | ended hend => cases h' <;> simp_all
  | crash hcrash => cases h' <;> simp_all
  | next hnext hrest ih =>
      cases h' with
      | ended hend => simp [hend] at hnext
      | crash hcrash => simp [hcrash] at hnext
      | next hnext' hrest' =>
          cases hnext.symm.trans hnext'
          exact ih hrest'

theorem sweep?_of_pending (hpending : t.radio.pending ≠ none) : sweep? accepts passed t = none := by
  obtain ⟨p, hp⟩ := Option.ne_none_iff_exists'.mp hpending
  simp [sweep?, hp]

theorem sweep?_of_end (hend : t.radio.queue.length ≤ passed) : sweep? accepts passed t = none := by
  simp [sweep?, List.getElem?_eq_none hend]

theorem sweep?_of_defers (hpending : t.radio.pending = none)
    (hqueue : t.radio.queue = behind ++ q :: ahead) (hq : t.radio.defers q = true) :
    sweep? accepts behind.length t = some (.ok (behind.length + 1, t)) := by
  simp [sweep?, hpending, hqueue, hq]

theorem sweep?_of_dispatch (hpending : t.radio.pending = none)
    (hqueue : t.radio.queue = behind ++ q :: ahead) (hq : t.radio.defers q = false) :
    sweep? accepts behind.length t =
      some ((t.take q behind ahead).dispatch accepts q.request >>= fun u ↦
        .ok (if u.radio.state = t.radio.state then behind.length else 0, u)) := by
  simp [sweep?, hpending, hqueue, hq]

/-- A sweep passes over requests that all have to wait. -/
theorem Sweeps.of_deferred (hpending : t.radio.pending = none) {between : List Queued}
    (hqueue : t.radio.queue = behind ++ between ++ ahead)
    (hdefers : ∀ q ∈ between, t.radio.defers q = true)
    (h : Sweeps accepts (behind ++ between).length t result) :
    Sweeps accepts behind.length t result := by
  induction between generalizing behind with
  | nil => simpa using h
  | cons q between ih =>
      rw [List.forall_mem_cons] at hdefers
      have hqueue' : t.radio.queue = behind ++ q :: (between ++ ahead) := by simpa using hqueue
      refine .next (sweep?_of_defers hpending hqueue' hdefers.1) ?_
      have hlonger : Sweeps accepts (behind ++ [q]).length t result :=
        ih (by simpa using hqueue) hdefers.2 (by simpa using h)
      simpa using hlonger

/-- The first request of the queue that need not wait parts it. -/
theorem parts_of_next (hqueue : t.radio.queue = behind ++ q :: ahead)
    (hbehind : ∀ r ∈ behind, t.radio.defers r = true) (hq : t.radio.defers q = false) :
    t.radio.queue.takeWhile t.radio.defers = behind ∧
      t.radio.queue.dropWhile t.radio.defers = q :: ahead := by
  constructor
  · rw [hqueue, List.takeWhile_append_of_pos hbehind, List.takeWhile_cons_of_neg (by simp [hq]),
      List.append_nil]
  · rw [hqueue, List.dropWhile_append_of_pos hbehind, List.dropWhile_cons_of_neg (by simp [hq])]

theorem drainWith_next (fuel : Nat) (hpending : t.radio.pending = none)
    (hqueue : t.radio.queue = behind ++ q :: ahead)
    (hbehind : ∀ r ∈ behind, t.radio.defers r = true) (hq : t.radio.defers q = false) :
    t.drainWith accepts (fuel + 1) =
      (t.take q behind ahead).dispatch accepts q.request >>= drainWith accepts fuel := by
  obtain ⟨htake, hdrop⟩ := parts_of_next hqueue hbehind hq
  rw [drainWith, if_neg (by simp [hpending]), hdrop]
  simp only [htake]
  rfl

/-- Emptying the queue, request by request, is a sweep: what has been passed over in a state still
has to wait in it. -/
theorem sweeps_drainWith (accepts : Call → Bool) (fuel : Nat) {t : Turn}
    {behind ahead : List Queued} (hqueue : t.radio.queue = behind ++ ahead)
    (hbehind : ∀ q ∈ behind, t.radio.defers q = true) (hfuel : t.radio.queue.length ≤ fuel) :
    Sweeps accepts behind.length t (t.drainWith accepts fuel) := by
  induction fuel generalizing t behind ahead with
  | zero =>
      rw [drainWith]
      exact .ended (sweep?_of_end (hfuel.trans (Nat.zero_le _)))
  | succ fuel ih =>
      by_cases hpending : t.radio.pending = none
      case neg =>
        rw [drainWith, if_pos (Option.isSome_iff_ne_none.mpr hpending)]
        exact .ended (sweep?_of_pending hpending)
      case pos =>
        cases hfind : ahead.find? fun q ↦ !t.radio.defers q with
        | none =>
            have hahead : ∀ q ∈ ahead, t.radio.defers q = true := by
              simpa using List.find?_eq_none.mp hfind
            have hrested : t.radio.Rested := by
              intro _ q hq
              rw [hqueue, List.mem_append] at hq
              exact hq.elim (hbehind q) (hahead q)
            rw [drainWith_of_rested hrested]
            have hall : t.radio.queue = behind ++ ahead ++ [] := by rw [hqueue, List.append_nil]
            refine .of_deferred hpending hall hahead ?_
            exact .ended (sweep?_of_end (by rw [hqueue]))
        | some q =>
            obtain ⟨hq, between, rest, rfl, hbetween⟩ := List.find?_eq_some_iff_append.mp hfind
            have hq : t.radio.defers q = false := by simpa using hq
            have hbetween : ∀ r ∈ between, t.radio.defers r = true := by simpa using hbetween
            have hpassed : ∀ r ∈ behind ++ between, t.radio.defers r = true := by
              simpa [or_imp, forall_and] using And.intro hbehind hbetween
            have hnext : t.radio.queue = (behind ++ between) ++ q :: rest := by simpa using hqueue
            refine .of_deferred hpending hnext hbetween ?_
            rw [drainWith_next fuel hpending hnext hpassed hq]
            have hsweep : sweep? accepts (behind ++ between).length t = _ :=
              sweep?_of_dispatch hpending hnext hq
            cases hdispatch : (t.take q (behind ++ between) rest).dispatch accepts q.request with
            | error crash => exact .crash (by rw [hsweep, hdispatch]; rfl)
            | ok u =>
                have hmove := move_of_dispatch (.queued hpending hnext hpassed hq)
                  (by simpa [Controller.defers] using hq) hdispatch
                obtain ⟨q', passed, rest', -, hnext', hpassed', hq', hu⟩ := hmove.queue_of_taken
                have hparts := parts_of_next hnext hpassed hq
                rw [(parts_of_next hnext' hpassed' hq').1, (parts_of_next hnext' hpassed' hq').2]
                  at hparts
                obtain ⟨rfl, hrest⟩ := hparts
                cases hrest
                have hlength : u.radio.queue.length ≤ fuel := by
                  simp only [hnext, List.length_append, List.length_cons] at hfuel
                  simp only [hu, List.length_append]
                  omega
                refine .next (by rw [hsweep, hdispatch]; rfl) ?_
                split
                next hstate =>
                  refine ih hu (fun r hr ↦ ?_) hlength
                  rw [Controller.defers, hstate]
                  exact hpassed r hr
                next => exact ih (List.nil_append _).symm (List.forall_mem_nil _) hlength

theorem sweeps_iff : Sweeps accepts 0 t result ↔ t.drain accepts = result := by
  have hdrain : Sweeps accepts 0 t (t.drain accepts) :=
    sweeps_drainWith accepts _ (List.nil_append _).symm (List.forall_mem_nil _) le_rfl
  exact ⟨fun h ↦ hdrain.unique h, fun h ↦ h ▸ hdrain⟩

end Turn

namespace Controller

/-- The sweep that a step makes once it has seen to its event. -/
theorem sweeps_step {accepts : Call → Bool} {c : Controller} {event : Event} {t : Turn}
    (hready : event = .ready → c.state = .invalid)
    (h : Turn.react accepts { radio := c } event = .ok t) (result : Except Crash Turn) :
    t.Sweeps accepts 0 result ↔ c.step accepts event = result := by
  rw [Turn.sweeps_iff, step, if_neg (by simpa using hready), h]
  rfl

/-- The queue of a radio at rest, state by state. -/
theorem Rested.queue {c : Controller} (h : c.Rested) (hpending : c.pending = none) :
    (∀ q ∈ c.queue, route c.state q.request.operation = .defer) ∧
    (c.state = .idle ∨ c.state = .started ∨ c.state = .paused ∨ c.state = .error →
      c.queue = []) ∧
    (c.state = .scanning → ∀ q ∈ c.queue,
      (∃ f, q.request.operation = .setFrequency f) ∨ q.request.operation = .pause ∨
        q.request.operation = .resume ∨ q.request.operation = .scanUp ∨
          q.request.operation = .scanDown ∨ q.request.operation = .fullScan) := by
  have hwaits := h hpending
  refine ⟨fun q hq ↦ by simpa [defers] using hwaits q hq, fun hstate ↦ ?_, fun hstate q hq ↦ ?_⟩
  · refine List.eq_nil_iff_forall_not_mem.mpr fun q hq ↦ ?_
    have hsettled := RadioState.defers_of_settled hstate q.request.operation
    have hdefers : c.state.defers q.request.operation = true := hwaits q hq
    simp [hsettled] at hdefers
  · have hdefers : c.state.defers q.request.operation = true := hwaits q hq
    rw [hstate] at hdefers
    exact RadioState.defers_scanning_iff.mp hdefers

variable {timing : Timing} {script : List (Event × (Call → Bool))} {t : Turn}

/-- Whatever a step does first, the sweep that follows comes to one end, the end of the step; no
step faults while bands are in range. When it ends with nothing in flight, the queue holds nothing
but what the state defers: while scanning, requests that wait for the end of the scan; in any other
state of a radio that is ready, nothing at all. -/
theorem step_leaves_only_deferred (h : (initial timing).run script = .ok t) (event : Event)
    (accepts : Call → Bool) :
    (∀ u, (event = .ready → t.radio.state = .invalid) →
      Turn.react accepts { radio := t.radio } event = .ok u →
        ∀ result, u.Sweeps accepts 0 result ↔ t.radio.step accepts event = result) ∧
    ((∀ x ∈ script, x.1.InRange) → event.InRange → ∃ u, t.radio.step accepts event = .ok u) ∧
    ∀ u, t.radio.step accepts event = .ok u → u.radio.pending = none →
      (∀ q ∈ u.radio.queue, route u.radio.state q.request.operation = .defer) ∧
      (u.radio.state = .idle ∨ u.radio.state = .started ∨ u.radio.state = .paused ∨
        u.radio.state = .error → u.radio.queue = []) ∧
      (u.radio.state = .scanning → ∀ q ∈ u.radio.queue,
        (∃ f, q.request.operation = .setFrequency f) ∨ q.request.operation = .pause ∨
          q.request.operation = .resume ∨ q.request.operation = .scanUp ∨
            q.request.operation = .scanDown ∨ q.request.operation = .fullScan) := by
  obtain ⟨-, hsteady, hrested⟩ := run_paced h
  refine ⟨fun u hready hreact ↦ sweeps_step hready hreact, fun hscript hevent ↦ ?_,
    fun u hstep hpending ↦ ?_⟩
  · exact step_ok accepts (run_inRange hscript h) hsteady hevent
  · have hrun := run_paced (run_snoc h hstep)
    exact hrun.2.2.queue hpending

/-- A frequency that is set while a search rests between two polls stays in the queue, behind a
search that was asked for before, and a property set after it does not. -/
theorem frequency_waits_for_search :
    ∃ t u, (initial {}).run (searchBegun ++
        [(.request ⟨some 1, .scanDown⟩, fun _ ↦ true),
          (.request ⟨some 2, .setFrequency ⟨100000⟩⟩, fun _ ↦ true)]) = .ok t ∧
      t.radio.step (fun _ ↦ true) (.request ⟨some 3, .setThreshold 300⟩) = .ok u ∧
      u.radio.queue.map (fun q ↦ q.request.id) = [some 1, some 2] ∧
      ∀ q ∈ u.radio.queue, route u.radio.state q.request.operation = .defer := by
  obtain ⟨t, ht⟩ : ∃ t, (initial {}).run (searchBegun ++
      [(.request ⟨some 1, .scanDown⟩, fun _ ↦ true),
        (.request ⟨some 2, .setFrequency ⟨100000⟩⟩, fun _ ↦ true)]) = .ok t := ⟨_, rfl⟩
  have hleaves := step_leaves_only_deferred ht (.request ⟨some 3, .setThreshold 300⟩) fun _ ↦ true
  obtain ⟨u, hu⟩ := hleaves.2.1
    (by simp [searchBegun, Event.InRange, Operation.InRange, Band.InRange, Band.europeUs,
      Word.limit, UInt32.size]) trivial
  have hend : u.radio.pending = none ∧
      u.radio.queue.map (fun q ↦ q.request.id) = [some 1, some 2] := by
    cases ht
    cases hu
    exact ⟨rfl, rfl⟩
  exact ⟨t, u, ht, hu, hend.2, (hleaves.2.2 u hu hend.1).1⟩

end Controller

end FmTuner
