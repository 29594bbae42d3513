import FmTuner.Proofs.ActionLife
import FmTuner.Proofs.Plans
import FmTuner.Proofs.TurnViews
import Mathlib.Data.List.TakeWhile
import Mathlib.Logic.Relation

/-!
# The moves of the controller

A step is one move that an event causes, followed by moves that empty the queue. `Turn.Move` lists
them all. Invariants are proved move by move; `Controller.run_induction` carries them over runs.
-/

namespace FmTuner

namespace Turn

/-! ## The parts of a move -/

/-- The turn after a request has left the queue past those that wait. -/
def take (t : Turn) (q : Queued) (passed rest : List Queued) : Turn :=
  { radio := { t.radio with queue := passed ++ rest }
    journal := t.journal ++ [.dispatched q passed t.radio] }

/-- The turn in which a transition begins, before its action does. -/
def launch (t : Turn) (p : Pending) (notices : List Notification) : Turn :=
  { radio := { t.radio with generation := t.radio.generation + 1, begun := t.radio.begun + 1 }
    journal := t.journal ++ [.begun p t.radio] ++ notices.map fun n ↦ .effect (.notify n) }

/-- The turn after progress with which a transition stays in flight. -/
def hold (t : Turn) (p : Pending) (progress : Progress) : Turn :=
  let t := t.absorb progress
  { t with radio.pending := some { p with action := progress.action } }

/-- The turn after progress that ends a transition. -/
def settle (t : Turn) (p : Pending) (progress : Progress) (armed timedOut : Bool) : Turn :=
  let t := t.absorb progress
  Turn.resolve { t with radio.pending := none } { p with action := progress.action } armed timedOut

end Turn

/-- The transition that a request begins. -/
def Controller.transition (c : Controller) (r : Request) (destination : RadioState)
    (action : Action) : Pending where
  id := c.begun + 1
  request := r.id
  action := action
  source := c.state
  destination := destination
  signalBefore := c.attributes.signalStrength
  stereoBefore := c.attributes.stereo

section

variable (c : Controller) (r : Request) (destination : RadioState) (action : Action)

@[simp] theorem Controller.transition_request :
    (c.transition r destination action).request = r.id := rfl

@[simp] theorem Controller.transition_action :
    (c.transition r destination action).action = action := rfl

@[simp] theorem Controller.transition_source :
    (c.transition r destination action).source = c.state := rfl

@[simp] theorem Controller.transition_destination :
    (c.transition r destination action).destination = destination := rfl

end

/-- Why an operation begins nothing, with what is reported of it. -/
inductive Controller.Declines (c : Controller) (operation : Operation) : Outcome → Prop where
  | ignored (h : route c.state operation = .ignore) : Declines c operation .ignored
  | rejected (h : route c.state operation = .reject) : Declines c operation .notHandled
  /-- There is no plan for its parameters. -/
  | unplanned {destination : RadioState} (h : route c.state operation = .accept destination)
      (hplan : Plan.build c.timing operation c.attributes c.scanMode = .ok none) :
      Declines c operation .notHandled

namespace Controller

/-- Whatever is in flight is running. -/
def Steady (c : Controller) : Prop :=
  ∀ p, c.pending = some p → p.action.status = .running

/-- Unless a transition is in flight, all that is queued has to wait. -/
def Rested (c : Controller) : Prop :=
  c.pending = none → ∀ q ∈ c.queue, c.defers q = true

/-- The events that a controller does nothing about. -/
def Ignores (c : Controller) : Event → Prop
  | .ready => c.state ≠ .invalid
  | .request _ => False
  | .callback _ => c.pending = none
  | .timeout id => ∀ p, c.pending = some p → p.id ≠ id
  | .pollDue generation =>
      generation ≠ c.generation ∨ c.pending ≠ none ∨ c.state ≠ .scanning ∨ c.scanMode = none

end Controller

namespace Turn

/-- A request that is next to be dispatched: out of the queue, or a poll that is due. -/
inductive Taken : Option Event → Turn → Request → Turn → Prop where
  | queued {t : Turn} {q : Queued} {passed rest : List Queued} (hpending : t.radio.pending = none)
      (hqueue : t.radio.queue = passed ++ q :: rest)
      (hpassed : ∀ r ∈ passed, t.radio.defers r = true) (hq : t.radio.defers q = false) :
      Taken none t q.request (t.take q passed rest)
  | poll {t : Turn} {mode : ScanMode} (hpending : t.radio.pending = none)
      (hstate : t.radio.state = .scanning) (hmode : t.radio.scanMode = some mode) :
      Taken (some (.pollDue t.radio.generation)) t { id := none, operation := .pollScan mode } t

/-- One move of the controller, with the event that causes it if it is not one of those that empty
the queue. -/
inductive Move (accepts : Call → Bool) : Option Event → Turn → Turn → Prop where
  | ready {t : Turn} (hstate : t.radio.state = .invalid) :
      Move accepts (some .ready) t (t.enter .idle)
  | arrive {t : Turn} (r : Request) : Move accepts (some (.request r)) t (t.enqueue r)
  | decline {e : Option Event} {t u : Turn} {r : Request} {outcome : Outcome}
      (htaken : Taken e t r u) (hdecline : u.radio.Declines r.operation outcome) :
      Move accepts e t (u.report r.id outcome)
  /-- A transition begins and stays in flight. -/
  | begin {e : Option Event} {t u : Turn} {r : Request} {destination : RadioState} {plan : Plan}
      {progress : Progress} (htaken : Taken e t r u)
      (hroute : route u.radio.state r.operation = .accept destination)
      (hplan : Plan.build u.radio.timing r.operation u.radio.attributes u.radio.scanMode =
        .ok (some plan))
      (hbegins : plan.action.Begins accepts u.radio.attributes progress)
      (hstatus : progress.action.status = .running) :
      Move accepts e t
        (((u.launch (u.radio.transition r destination plan.action) plan.notices).hold
          (u.radio.transition r destination plan.action) progress).emit
          (.armTimeout (u.radio.begun + 1) (u.radio.timing.budget r.operation)))
  /-- A transition ends as soon as it has begun. -/
  | flash {e : Option Event} {t u : Turn} {r : Request} {destination : RadioState} {plan : Plan}
      {progress : Progress} (htaken : Taken e t r u)
      (hroute : route u.radio.state r.operation = .accept destination)
      (hplan : Plan.build u.radio.timing r.operation u.radio.attributes u.radio.scanMode =
        .ok (some plan))
      (hbegins : plan.action.Begins accepts u.radio.attributes progress)
      (hstatus : progress.action.status.isTerminal = true) :
      Move accepts e t
        ((u.launch (u.radio.transition r destination plan.action) plan.notices).settle
          (u.radio.transition r destination plan.action) progress false false)
  /-- A callback lets the transition in flight go on. -/
  | advance {t : Turn} {p : Pending} {callback : Callback} {progress : Progress}
      (hpending : t.radio.pending = some p)
      (hadvances : p.action.Advances accepts callback t.radio.attributes progress)
      (hstatus : progress.action.status = .running) :
      Move accepts (some (.callback callback)) t (t.hold p progress)
  /-- A callback ends the transition in flight. -/
  | finish {t : Turn} {p : Pending} {callback : Callback} {progress : Progress}
      (hpending : t.radio.pending = some p)
      (hadvances : p.action.Advances accepts callback t.radio.attributes progress)
      (hstatus : progress.action.status.isTerminal = true) :
      Move accepts (some (.callback callback)) t (t.settle p progress true false)
  | expire {t : Turn} {p : Pending} (hpending : t.radio.pending = some p) :
      Move accepts (some (.timeout p.id)) t
        (t.settle p
          { action := { p.action with status := .error }, attributes := t.radio.attributes }
          true true)

theorem Taken.pending {e : Option Event} {t u : Turn} {r : Request} (h : Taken e t r u) :
    u.radio.pending = none := by
  cases h <;> assumption

/-! ## Steps are made of moves -/

variable {accepts : Call → Bool} {e : Option Event} {t u v : Turn}

theorem settle_of_none {p : Pending} {progress : Progress} (h : t.radio.pending = none)
    (armed timedOut : Bool) :
    Turn.resolve (t.absorb progress) { p with action := progress.action } armed timedOut =
      t.settle p progress armed timedOut := by
  have hnone : t.absorb progress = { t.absorb progress with radio.pending := none } := by
    apply Turn.ext <;> simp [h]
  rw [settle, ← hnone]

theorem begin_eq (t : Turn) (accepts : Call → Bool) (r : Request) (destination : RadioState)
    (plan : Plan) :
    t.begin accepts r destination plan =
      match plan.action.execute accepts t.radio.attributes with
      | .error e => .error ⟨e.fault, t.radio.state⟩
      | .ok progress =>
          let p := t.radio.transition r destination plan.action
          let q := { p with action := progress.action }
          let u := (t.launch p plan.notices).absorb progress
          if q.action.status.isTerminal then .ok (u.resolve q false false)
          else
            .ok (Turn.emit { u with radio.pending := some q }
              (.armTimeout q.id (u.radio.timing.budget r.operation))) := by
  change (match plan.action.execute accepts t.radio.attributes with
    | .error e => (.error ⟨e.fault, t.radio.state⟩ : Except Crash Turn)
    | .ok progress => _) = _
  cases plan.action.execute accepts t.radio.attributes <;> rfl

theorem move_of_begin {r : Request} {destination : RadioState} {plan : Plan}
    (htaken : Taken e t r u) (hroute : route u.radio.state r.operation = .accept destination)
    (hplan : Plan.build u.radio.timing r.operation u.radio.attributes u.radio.scanMode =
      .ok (some plan))
    (h : u.begin accepts r destination plan = .ok v) : Move accepts e t v := by
  rw [begin_eq] at h
  cases hexecute : plan.action.execute accepts u.radio.attributes with
  | error fault => simp [hexecute] at h
  | ok progress =>
      have hbegins := Action.begins_of_execute (Plan.built_of_build hplan).action.2.1 hexecute
      simp only [hexecute] at h
      split at h
      next hstatus =>
        cases Except.ok.inj h
        have hnone : (u.launch (u.radio.transition r destination plan.action)
            plan.notices).radio.pending = none := htaken.pending
        have hmove := Move.flash htaken hroute hplan hbegins hstatus
        rwa [← settle_of_none hnone] at hmove
      next hstatus =>
        have hrunning : progress.action.status = .running := by
          cases hbegins <;> simp_all [Status.isTerminal]
        have htiming : ((u.launch (u.radio.transition r destination plan.action)
            plan.notices).absorb progress).radio.timing = u.radio.timing := by
          simp [launch]
        have hmove := Move.begin htaken hroute hplan hbegins hrunning
        rw [← htiming] at hmove
        cases Except.ok.inj h
        exact hmove

theorem move_of_dispatch {r : Request} (htaken : Taken e t r u)
    (hdefer : route u.radio.state r.operation ≠ .defer)
    (h : u.dispatch accepts r = .ok v) : Move accepts e t v := by
  rw [dispatch] at h
  split at h
  next hroute => exact (hdefer hroute).elim
  next hroute =>
    cases Except.ok.inj h
    exact .decline htaken (.ignored hroute)
  next hroute =>
    cases Except.ok.inj h
    exact .decline htaken (.rejected hroute)
  next destination hroute =>
    split at h
    next => simp at h
    next hplan =>
      cases Except.ok.inj h
      exact .decline htaken (.unplanned hroute hplan)
    next plan hplan => exact move_of_begin htaken hroute hplan h

theorem move_of_hear {callback : Callback} (hsteady : t.radio.Steady)
    (h : t.hear accepts callback = .ok u) :
    (t.radio.pending = none ∧ u = t) ∨ Move accepts (some (.callback callback)) t u := by
  rw [hear] at h
  split at h
  next hpending => exact .inl ⟨hpending, (Except.ok.inj h).symm⟩
  next p hpending =>
    have hrunning := hsteady p hpending
    cases hhear : p.action.hear accepts callback t.radio.attributes with
    | error fault => simp [hhear] at h
    | ok progress =>
        have hadvances := Action.advances_of_hear hrunning hhear
        simp only [hhear] at h
        split at h
        next hstatus =>
          cases Except.ok.inj h
          exact .inr (.finish hpending hadvances hstatus)
        next hstatus =>
          have hstill : progress.action.status = .running := by
            cases hadvances with
            | stopped hcommand hcomplete hverdict =>
                simp [Action.verdict_status_isTerminal hverdict] at hstatus
            | finished | refused => simp [Status.isTerminal] at hstatus
            | issued => exact hrunning
          cases Except.ok.inj h
          exact .inr (.advance hpending hadvances hstill)

theorem move_of_expire {id : Nat} (hsteady : t.radio.Steady) (h : t.expire id = .ok u) :
    ((∀ p, t.radio.pending = some p → p.id ≠ id) ∧ u = t) ∨
      Move accepts (some (.timeout id)) t u := by
  rw [expire] at h
  split at h
  next hpending => exact .inl ⟨by simp [hpending], (Except.ok.inj h).symm⟩
  next p hpending =>
    split at h
    next hid =>
      refine .inl ⟨?_, (Except.ok.inj h).symm⟩
      intro q hq
      cases hpending.symm.trans hq
      exact hid
    next hid =>
      cases Decidable.not_not.mp hid
      rw [Action.abort_error (hsteady p hpending)] at h
      cases Except.ok.inj h
      exact .inr (.expire hpending)

theorem move_of_poll {generation : Nat} (h : t.poll accepts generation = .ok u) :
    (t.radio.Ignores (.pollDue generation) ∧ u = t) ∨
      Move accepts (some (.pollDue generation)) t u := by
  rw [poll] at h
  split at h
  next hstale =>
    refine .inl ⟨?_, (Except.ok.inj h).symm⟩
    rcases hstale with hgeneration | hpending | hstate
    · exact .inl hgeneration
    · exact .inr (.inl (Option.isSome_iff_ne_none.mp hpending))
    · exact .inr (.inr (.inl hstate))
  next hlive =>
    simp only [not_or, Decidable.not_not, Bool.not_eq_true] at hlive
    obtain ⟨rfl, hpending, hstate⟩ := hlive
    split at h
    next hmode => exact .inl ⟨.inr (.inr (.inr hmode)), (Except.ok.inj h).symm⟩
    next mode hmode =>
      refine .inr (move_of_dispatch (.poll (by simpa using hpending) hstate hmode) ?_ h)
      simp [hstate, route, Route.whenScanning]

theorem move_of_react {event : Event} (hsteady : t.radio.Steady)
    (hready : event = .ready → t.radio.state = .invalid) (h : t.react accepts event = .ok u) :
    (t.radio.Ignores event ∧ u = t) ∨ Move accepts (some event) t u := by
  cases event with
  | ready =>
      cases Except.ok.inj h
      exact .inr (.ready (hready rfl))
  | request r =>
      cases Except.ok.inj h
      exact .inr (.arrive r)
  | callback c => exact move_of_hear hsteady h
  | timeout i => exact move_of_expire hsteady h
  | pollDue generation => exact move_of_poll h

/-! ## Emptying the queue -/

/-- Nothing that leaves the queue makes it longer. -/
theorem Move.queue_of_taken (hmove : Move accepts none t u) :
    ∃ q passed rest, t.radio.pending = none ∧ t.radio.queue = passed ++ q :: rest ∧
      (∀ r ∈ passed, t.radio.defers r = true) ∧ t.radio.defers q = false ∧
        u.radio.queue = passed ++ rest := by
  cases hmove with
  | decline htaken =>
      cases htaken with
      | queued hpending hqueue hpassed hq =>
          exact ⟨_, _, _, hpending, hqueue, hpassed, hq, by simp [take]⟩
  | begin htaken hroute hplan hbegins hstatus =>
      cases htaken with
      | queued hpending hqueue hpassed hq =>
          refine ⟨_, _, _, hpending, hqueue, hpassed, hq, ?_⟩
          cases hbegins with
          | empty => simp at hstatus
          | refused => simp at hstatus
          | issued => simp [hold, launch, take]
  | flash htaken hroute hplan hbegins hstatus =>
      cases htaken with
      | queued hpending hqueue hpassed hq =>
          refine ⟨_, _, _, hpending, hqueue, hpassed, hq, ?_⟩
          cases hbegins with
          | empty hcommands hhook =>
              cases (Plan.built_of_build hplan).followups_of_empty hcommands hhook
              simp [settle, launch, take, Controller.resolved]
          | refused => simp [settle, launch, take, Controller.resolved]
          | issued => simp [Status.isTerminal] at hstatus

theorem dropWhile_defers (c : Controller) :
    c.queue.dropWhile c.defers = [] ∨
      ∃ q rest, c.queue.dropWhile c.defers = q :: rest ∧
        c.queue = c.queue.takeWhile c.defers ++ q :: rest ∧ c.defers q = false := by
  cases hdrop : c.queue.dropWhile c.defers with
  | nil => exact .inl rfl
  | cons q rest =>
      refine .inr ⟨q, rest, rfl, ?_, ?_⟩
      · rw [← hdrop, List.takeWhile_append_dropWhile]
      · have hne : c.queue.dropWhile c.defers ≠ [] := by simp [hdrop]
        simpa [hdrop] using List.head_dropWhile_not c.defers hne

theorem drainWith_moves (fuel : Nat) {t : Turn} (hfuel : t.radio.queue.length ≤ fuel)
    (h : t.drainWith accepts fuel = .ok u) :
    Relation.ReflTransGen (Move accepts none) t u ∧ u.radio.Rested := by
  induction fuel generalizing t with
  | zero =>
      have hnil : t.radio.queue = [] := by simpa using hfuel
      cases Except.ok.inj h
      exact ⟨.refl, fun _ q hq ↦ by simp [hnil] at hq⟩
  | succ fuel ih =>
      rw [drainWith] at h
      split at h
      next hpending =>
        cases Except.ok.inj h
        exact ⟨.refl, fun hnone ↦ by simp [hnone] at hpending⟩
      next hpending =>
        have hnone : t.radio.pending = none := by simpa using hpending
        rcases dropWhile_defers t.radio with hdrop | ⟨q, rest, hdrop, hqueue, hq⟩
        · simp only [hdrop] at h
          cases Except.ok.inj h
          exact ⟨.refl, fun _ ↦ by simpa [List.dropWhile_eq_nil_iff] using hdrop⟩
        · simp only [hdrop, bind, Except.bind] at h
          split at h
          next => simp at h
          next v hdispatch =>
            have hpassed : ∀ r ∈ t.radio.queue.takeWhile t.radio.defers, t.radio.defers r = true :=
              fun r hr ↦ List.mem_takeWhile_imp hr
            have hmove : Move accepts none t v :=
              move_of_dispatch (.queued hnone hqueue hpassed hq)
                (by simpa [Controller.defers, take] using hq) hdispatch
            obtain ⟨q', passed, rest', -, hqueue', -, -, hv⟩ := hmove.queue_of_taken
            have hlength : v.radio.queue.length ≤ fuel := by
              simp only [hqueue', List.length_append, List.length_cons] at hfuel
              simp only [hv, List.length_append]
              omega
            obtain ⟨hmoves, hrested⟩ := ih hlength h
            exact ⟨.head hmove hmoves, hrested⟩

theorem drain_moves (h : t.drain accepts = .ok u) :
    Relation.ReflTransGen (Move accepts none) t u ∧ u.radio.Rested :=
  drainWith_moves _ le_rfl h

end Turn

namespace Turn

variable {accepts : Call → Bool} {e : Option Event} {t u : Turn}

@[simp] theorem hold_radio (p : Pending) (progress : Progress) :
    (t.hold p progress).radio =
      { t.radio with
        pending := some { p with action := progress.action }
        queue := t.radio.queue ++ Journal.followups t.radio.arrivals progress.followups
        attributes := progress.attributes
        arrivals := t.radio.arrivals + progress.followups.length } := by
  simp [hold]

@[simp] theorem hold_journal (p : Pending) (progress : Progress) :
    (t.hold p progress).journal =
      t.journal ++ Journal.ofProgress t.radio.arrivals progress :=
  absorb_journal t progress

/-- The controller in which a transition ends. -/
def settling (t : Turn) (progress : Progress) : Controller :=
  { t.radio with
    pending := none
    queue := t.radio.queue ++ Journal.followups t.radio.arrivals progress.followups
    attributes := progress.attributes
    arrivals := t.radio.arrivals + progress.followups.length }

@[simp] theorem settle_radio (p : Pending) (progress : Progress) (armed timedOut : Bool) :
    (t.settle p progress armed timedOut).radio =
      Controller.resolved
        { t.radio with
          pending := none
          queue := t.radio.queue ++ Journal.followups t.radio.arrivals progress.followups
          attributes := progress.attributes
          arrivals := t.radio.arrivals + progress.followups.length }
        { p with action := progress.action } timedOut := by
  simp [settle]

@[simp] theorem settle_journal (p : Pending) (progress : Progress) (armed timedOut : Bool) :
    (t.settle p progress armed timedOut).journal =
      t.journal ++ Journal.ofProgress t.radio.arrivals progress ++
        Journal.ofEnd (t.settling progress) { p with action := progress.action } armed
          timedOut := by
  simp [settle, settling]

@[simp] theorem launch_journal (p : Pending) (notices : List Notification) :
    (t.launch p notices).journal =
      t.journal ++ .begun p t.radio :: notices.map fun n ↦ .effect (.notify n) := by
  simp [launch]

@[simp] theorem take_journal (q : Queued) (passed rest : List Queued) :
    (t.take q passed rest).journal = t.journal ++ [.dispatched q passed t.radio] := rfl

@[simp] theorem launch_radio (p : Pending) (notices : List Notification) :
    (t.launch p notices).radio =
      { t.radio with generation := t.radio.generation + 1, begun := t.radio.begun + 1 } := rfl

@[simp] theorem take_radio (q : Queued) (passed rest : List Queued) :
    (t.take q passed rest).radio = { t.radio with queue := passed ++ rest } := rfl

/-- The turn in which a transition has begun, before its action does. -/
def launched (t : Turn) (p : Pending) (notices : List Notification) : Turn :=
  { t.launch p notices with radio.pending := some p }

theorem launched_hold (t : Turn) (p : Pending) (notices : List Notification)
    (progress : Progress) :
    (t.launched p notices).hold p progress = (t.launch p notices).hold p progress := by
  apply Turn.ext <;> simp [launched]

theorem launched_settle (t : Turn) (p : Pending) (notices : List Notification)
    (progress : Progress) (armed timedOut : Bool) :
    (t.launched p notices).settle p progress armed timedOut =
      (t.launch p notices).settle p progress armed timedOut := by
  apply Turn.ext <;> simp [launched, settling]

/-- A move only adds to the journal. -/
theorem Move.journal_prefix (hmove : Move accepts e t u) : t.journal <+: u.journal := by
  cases hmove with
  | decline htaken => cases htaken <;> simp [List.prefix_append]
  | begin htaken => cases htaken <;> simp
  | flash htaken => cases htaken <;> simp
  | _ => simp

/-- What a transition in flight was stays running until it ends. -/
theorem Move.steady (hmove : Move accepts e t u) (ht : t.radio.Steady) : u.radio.Steady := by
  intro p hp
  cases hmove with
  | ready => exact ht p (by simpa using hp)
  | arrive => exact ht p (by simpa using hp)
  | decline htaken =>
      simp [htaken.pending] at hp
  | begin htaken hroute hplan hbegins hstatus =>
      simp only [emit_radio, hold_radio, Option.some.injEq] at hp
      simpa [← hp] using hstatus
  | flash => simp [Controller.resolved] at hp
  | advance hpending hadvances hstatus =>
      simp only [hold_radio, Option.some.injEq] at hp
      simpa [← hp] using hstatus
  | finish => simp [Controller.resolved] at hp
  | expire => simp [Controller.resolved] at hp

end Turn

/-- A transition in flight still has the operation, the hook and the calls of its plan. -/
def Pending.Planned (p : Pending) : Prop :=
  ∃ timing a scanMode plan, Plan.Built timing a scanMode p.action.operation plan ∧
    p.action.hook = plan.action.hook ∧
      Command.calls p.action.commands = Command.calls plan.action.commands

/-- An action that goes on or ends carries out the plan that it was made from. -/
theorem Pending.Planned.congr {p q : Pending} (h : p.Planned)
    (hsame : q.action.operation = p.action.operation ∧ q.action.hook = p.action.hook)
    (hcalls : Command.calls q.action.commands = Command.calls p.action.commands) : q.Planned := by
  obtain ⟨timing, a, scanMode, plan, hbuilt, hhook, hplan⟩ := h
  exact ⟨timing, a, scanMode, plan, hsame.1 ▸ hbuilt, hsame.2.trans hhook, hcalls.trans hplan⟩

theorem Plan.Built.planned {timing : Timing} {a : Attributes} {scanMode : Option ScanMode}
    {plan : Plan} {r : Request} (h : Built timing a scanMode r.operation plan) (c : Controller)
    (destination : RadioState) : (c.transition r destination plan.action).Planned := by
  refine ⟨timing, a, scanMode, plan, ?_, rfl, rfl⟩
  rw [Controller.transition_action, h.action.1]
  exact h

namespace Controller

def Planned (c : Controller) : Prop := ∀ p, c.pending = some p → p.Planned

/-- A transition in flight was accepted in the state that the radio is in. -/
def Routed (c : Controller) : Prop :=
  ∀ p, c.pending = some p →
    p.source = c.state ∧ route c.state p.action.operation = .accept p.destination

end Controller

namespace Turn

variable {accepts : Call → Bool} {e : Option Event} {t u : Turn}

theorem Move.planned (hmove : Move accepts e t u) (ht : t.radio.Planned) : u.radio.Planned := by
  intro p hp
  cases hmove with
  | ready => exact ht p (by simpa using hp)
  | arrive => exact ht p (by simpa using hp)
  | decline htaken => simp [htaken.pending] at hp
  | @begin _ _ v _ destination _ _ _ hroute hplan hbegins =>
      simp only [emit_radio, hold_radio, Option.some.injEq] at hp
      subst hp
      exact ((Plan.built_of_build hplan).planned v.radio destination).congr hbegins.same
        hbegins.calls
  | advance hpending hadvances =>
      simp only [hold_radio, Option.some.injEq] at hp
      subst hp
      exact (ht _ hpending).congr hadvances.same hadvances.calls
  | flash | finish | expire => simp [Controller.resolved] at hp

theorem Move.routed (hmove : Move accepts e t u) (ht : t.radio.Routed) : u.radio.Routed := by
  intro p hp
  cases hmove with
  | ready hinvalid =>
      have hroute := (ht p (by simpa using hp)).2
      simp [hinvalid, route] at hroute
  | arrive => exact ht p (by simpa using hp)
  | decline htaken => simp [htaken.pending] at hp
  | begin htaken hroute hplan hbegins =>
      simp only [emit_radio, hold_radio, Option.some.injEq] at hp
      subst hp
      have hoperation := hbegins.same.1.trans (Plan.built_of_build hplan).action.1
      exact ⟨by simp, by simpa [hoperation] using hroute⟩
  | advance hpending hadvances =>
      simp only [hold_radio, Option.some.injEq] at hp
      subst hp
      have hflight := ht _ hpending
      simpa [hadvances.same.1] using hflight
  | flash | finish | expire => simp [Controller.resolved] at hp

/-! ## Turns after a history -/

/-- The turn, if `history` has gone before it. -/
def after (t : Turn) (history : Journal) : Turn := { t with journal := history ++ t.journal }

@[simp] theorem after_radio (history : Journal) : (t.after history).radio = t.radio := rfl

@[simp] theorem after_journal (history : Journal) :
    (t.after history).journal = history ++ t.journal := rfl

@[simp] theorem settling_after (history : Journal) (progress : Progress) :
    (t.after history).settling progress = t.settling progress := rfl

theorem settle_after (history : Journal) (p : Pending) (progress : Progress)
    (armed timedOut : Bool) :
    (t.after history).settle p progress armed timedOut =
      (t.settle p progress armed timedOut).after history := by
  apply Turn.ext <;> simp

theorem hold_after (history : Journal) (p : Pending) (progress : Progress) :
    (t.after history).hold p progress = (t.hold p progress).after history := by
  apply Turn.ext <;> simp

theorem launch_after (history : Journal) (p : Pending) (notices : List Notification) :
    (t.after history).launch p notices = (t.launch p notices).after history := by
  apply Turn.ext <;> simp

theorem Taken.after {r : Request} (h : Taken e t r u) (history : Journal) :
    Taken e (t.after history) r (u.after history) := by
  cases h with
  | @queued _ q passed rest hpending hqueue hpassed hq =>
      have htake : (t.after history).take q passed rest = (t.take q passed rest).after history := by
        apply Turn.ext <;> simp
      rw [← htake]
      exact .queued hpending hqueue hpassed hq
  | poll hpending hstate hmode => exact .poll (t := t.after history) hpending hstate hmode

/-- No move looks at what has gone before. -/
theorem Move.after (h : Move accepts e t u) (history : Journal) :
    Move accepts e (t.after history) (u.after history) := by
  cases h with
  | ready hstate =>
      have hturn : (t.after history).enter .idle = (t.enter .idle).after history := by
        apply Turn.ext
        · rw [enter_radio, after_radio, after_radio, enter_radio]
        · simp
      rw [← hturn]
      exact .ready hstate
  | arrive r =>
      have hturn : (t.after history).enqueue r = (t.enqueue r).after history := by
        apply Turn.ext <;> simp
      rw [← hturn]
      exact .arrive r
  | @decline _ _ v r outcome htaken hdecline =>
      have hturn : (v.after history).report r.id outcome =
          (v.report r.id outcome).after history := by
        apply Turn.ext <;> simp
      rw [← hturn]
      exact .decline (htaken.after history) hdecline
  | @begin _ _ v r destination plan progress htaken hroute hplan hbegins hstatus =>
      have hmove := Move.begin (htaken.after history) hroute hplan hbegins hstatus
      rw [launch_after, hold_after] at hmove
      simpa [Turn.after, emit, note] using hmove
  | @flash _ _ v r destination plan progress htaken hroute hplan hbegins hstatus =>
      have hmove := Move.flash (htaken.after history) hroute hplan hbegins hstatus
      rwa [launch_after, settle_after] at hmove
  | advance hpending hadvances hstatus =>
      rw [← hold_after]
      exact .advance hpending hadvances hstatus
  | finish hpending hadvances hstatus =>
      rw [← settle_after]
      exact .finish hpending hadvances hstatus
  | expire hpending =>
      rw [← settle_after]
      exact .expire hpending

theorem keeps_of_moves {Q : Turn → Prop} (hQ : ∀ t u, Q t → Move accepts e t u → Q u)
    (h : Relation.ReflTransGen (Move accepts e) t u) (ht : Q t) : Q u := by
  induction h with
  | refl => exact ht
  | tail _ hmove ih => exact hQ _ _ ih hmove

end Turn

namespace Controller

variable {accepts : Call → Bool} {c : Controller} {u : Turn}

theorem step_moves {event : Event} (hsteady : c.Steady) (h : c.step accepts event = .ok u) :
    (event = .ready ∧ c.state ≠ .invalid ∧ u = { radio := c }) ∨
      ∃ v, (c.Ignores event ∧ v = { radio := c } ∨
          Turn.Move accepts (some event) { radio := c } v) ∧
        Relation.ReflTransGen (Turn.Move accepts none) v u ∧ u.radio.Rested := by
  rw [step] at h
  split at h
  next hready => exact .inl ⟨hready.1, hready.2, (Except.ok.inj h).symm⟩
  next hready =>
    have hinvalid : event = .ready → c.state = .invalid := by simpa using hready
    cases hreact : Turn.react accepts { radio := c } event with
    | error crash => simp [hreact, bind, Except.bind] at h
    | ok v =>
        simp only [hreact, bind, Except.bind] at h
        exact .inr ⟨v, Turn.move_of_react hsteady hinvalid hreact, Turn.drain_moves h⟩

/-- Whatever every move keeps a step keeps, after any history. -/
theorem keeps_of_step {Q : Turn → Prop} {event : Event} {history : Journal}
    (hQ : ∀ e t u, Q t → t.radio.Steady → Turn.Move accepts e t u → Q u) (hsteady : c.Steady)
    (hstart : Q { radio := c, journal := history }) (h : c.step accepts event = .ok u) :
    Q (u.after history) := by
  have hc : Q (Turn.after { radio := c } history) ∧ c.Steady := by
    simpa [Turn.after] using And.intro hstart hsteady
  rcases step_moves hsteady h with ⟨-, -, rfl⟩ | ⟨v, hcause, hmoves, -⟩
  · exact hc.1
  · have hv : Q (v.after history) ∧ v.radio.Steady := by
      rcases hcause with ⟨-, rfl⟩ | hcause
      · exact hc
      · exact ⟨hQ _ _ _ hc.1 hsteady (hcause.after history), hcause.steady hsteady⟩
    refine (Turn.keeps_of_moves (Q := fun t ↦ Q (t.after history) ∧ t.radio.Steady) ?_ hmoves hv).1
    intro t u ht hmove
    exact ⟨hQ _ _ _ ht.1 ht.2 (hmove.after history), hmove.steady ht.2⟩

theorem run_append {xs ys : List (Event × (Call → Bool))} {t : Turn} (h : c.run (xs ++ ys) = .ok t) :
    ∃ u v, c.run xs = .ok u ∧ u.radio.run ys = .ok v ∧ t = v.after u.journal := by
  induction xs generalizing c t with
  | nil => exact ⟨{ radio := c }, t, rfl, h, by simp [Turn.after]⟩
  | cons entry rest ih =>
      obtain ⟨event, accepts⟩ := entry
      simp only [List.cons_append, run, bind, Except.bind] at h ⊢
      split at h
      next => simp at h
      next u hstep =>
        split at h
        next => simp at h
        next v hrest =>
          cases Except.ok.inj h
          obtain ⟨w, x, hw, hx, rfl⟩ := ih hrest
          refine ⟨w.after u.journal, x, ?_, hx, ?_⟩
          · simp [hw, Turn.after]
          · simp [Turn.after]

theorem run_snoc {script : List (Event × (Call → Bool))} {event : Event} {t u : Turn}
    (h : c.run script = .ok t) (hstep : t.radio.step accepts event = .ok u) :
    c.run (script ++ [(event, accepts)]) =
      .ok { radio := u.radio, journal := t.journal ++ u.journal } := by
  induction script generalizing c t with
  | nil =>
      cases Except.ok.inj h
      simp [run, hstep, bind, Except.bind]
  | cons entry rest ih =>
      obtain ⟨first, answers⟩ := entry
      simp only [List.cons_append, run, bind, Except.bind] at h ⊢
      split at h
      next => simp at h
      next v hfirst =>
        split at h
        next => simp at h
        next w hrest =>
          cases Except.ok.inj h
          simp [ih hrest hstep]

theorem run_single {x : Event × (Call → Bool)} {t : Turn} (h : c.run [x] = .ok t) :
    c.step x.2 x.1 = .ok t := by
  simp only [run, bind, Except.bind] at h
  split at h
  next => simp at h
  next u hstep =>
    cases Except.ok.inj h
    simpa using hstep

/-- Whatever every move keeps holds along every run. A move that an event causes finds the queue
at rest. -/
theorem run_induction {P : Turn → Prop} {timing : Timing} {script : List (Event × (Call → Bool))}
    (hinitial : P { radio := initial timing })
    (hevent : ∀ event accepts t u, (event, accepts) ∈ script → P t → t.radio.Steady →
      t.radio.Rested → Turn.Move accepts (some event) t u → P u)
    (hqueue : ∀ accepts t u, P t → t.radio.Steady → Turn.Move accepts none t u → P u)
    {t : Turn} (h : run (initial timing) script = .ok t) :
    P t ∧ t.radio.Steady ∧ t.radio.Rested := by
  have hgeneral : ∀ (script' : List (Event × (Call → Bool))) (c : Controller) (history : Journal)
      (t : Turn), (∀ x ∈ script', x ∈ script) → P { radio := c, journal := history } → c.Steady →
      c.Rested → run c script' = .ok t → P (t.after history) ∧ t.radio.Steady ∧ t.radio.Rested := by
    intro script'
    induction script' with
    | nil =>
        intro c history t _ hP hsteady hrested hrun
        cases Except.ok.inj hrun
        exact ⟨by simpa [Turn.after] using hP, hsteady, hrested⟩
    | cons entry rest ih =>
        obtain ⟨event, accepts⟩ := entry
        intro c history t hsub hP hsteady hrested hrun
        simp only [run, bind, Except.bind] at hrun
        split at hrun
        next => simp at hrun
        next u hstep =>
          split at hrun
          next => simp at hrun
          next v hrest =>
            cases Except.ok.inj hrun
            have hu : P (u.after history) ∧ u.radio.Steady ∧ u.radio.Rested := by
              rcases step_moves hsteady hstep with ⟨-, -, rfl⟩ | ⟨w, hcause, hmoves, hu⟩
              · exact ⟨by simpa [Turn.after] using hP, hsteady, hrested⟩
              · have hw : P (w.after history) ∧ w.radio.Steady := by
                  rcases hcause with ⟨-, rfl⟩ | hcause
                  · exact ⟨by simpa [Turn.after] using hP, hsteady⟩
                  · have hmove := hcause.after history
                    refine ⟨hevent event accepts _ _ (hsub _ (by simp)) ?_ hsteady hrested hmove,
                      hcause.steady hsteady⟩
                    simpa [Turn.after] using hP
                have hfinal : P (u.after history) ∧ u.radio.Steady :=
                  Turn.keeps_of_moves
                    (Q := fun t ↦ P (t.after history) ∧ t.radio.Steady)
                    (fun t u ht hmove ↦ ⟨hqueue accepts _ _ ht.1 ht.2 (hmove.after history),
                      hmove.steady ht.2⟩) hmoves hw
                exact ⟨hfinal.1, hfinal.2, hu⟩
            have hlater := ih u.radio (history ++ u.journal) v
              (fun x hx ↦ hsub x (by simp [hx])) hu.1 hu.2.1 hu.2.2 hrest
            simpa [Turn.after, List.append_assoc] using hlater
  have hempty : (initial timing).Rested := fun _ q hq ↦ by simp [initial] at hq
  have hidle : (initial timing).Steady := fun p hp ↦ by simp [initial] at hp
  simpa [Turn.after] using
    hgeneral script (initial timing) [] t (fun _ hx ↦ hx) hinitial hidle hempty h

end Controller

end FmTuner
