import FmTuner.Proofs.Ledgers

/-!
# Scenes

A scene is what there is to see of a circuit whose queue is empty: the state of the radio, its
chip, what it has reported and how far the transition in flight has come. `Scene.Begins`
and `Scene.Delivers` say how a request and a delivery change it. What a circuit shows follows them
step by step, so that the course of a scan can be worked out on scenes.
-/

namespace FmTuner

namespace Turn

variable {accepts : Call → Bool} {t : Turn}

/-! ## Moves as steps -/

theorem begin_of_running {r : Request} {destination : RadioState} {plan : Plan}
    {progress : Progress} (hbegins : plan.action.Begins accepts t.radio.attributes progress)
    (hidle : plan.action.status = .idle) (hstatus : progress.action.status = .running) :
    t.begin accepts r destination plan =
      .ok (((t.launch (t.radio.transition r destination plan.action) plan.notices).hold
        (t.radio.transition r destination plan.action) progress).emit
          (.armTimeout (t.radio.begun + 1) (t.radio.timing.budget r.operation))) := by
  have htiming : ((t.launch (t.radio.transition r destination plan.action)
      plan.notices).absorb progress).radio.timing = t.radio.timing := by
    simp [launch]
  rw [begin_eq, hbegins.execute_eq hidle, ← htiming]
  simp only [hstatus, Status.isTerminal, Bool.false_eq_true, if_false]
  rfl

theorem begin_of_terminal {r : Request} {destination : RadioState} {plan : Plan}
    {progress : Progress} (hpending : t.radio.pending = none)
    (hbegins : plan.action.Begins accepts t.radio.attributes progress)
    (hidle : plan.action.status = .idle) (hstatus : progress.action.status.isTerminal = true) :
    t.begin accepts r destination plan =
      .ok ((t.launch (t.radio.transition r destination plan.action) plan.notices).settle
        (t.radio.transition r destination plan.action) progress false false) := by
  have hnone : (t.launch (t.radio.transition r destination plan.action)
      plan.notices).radio.pending = none := hpending
  rw [begin_eq, hbegins.execute_eq hidle, ← settle_of_none hnone]
  simp only [hstatus, if_true]

theorem hear_of_running {p : Pending} {callback : Callback} {progress : Progress}
    (hpending : t.radio.pending = some p) (hrunning : p.action.status = .running)
    (hadvances : p.action.Advances accepts callback t.radio.attributes progress)
    (hstatus : progress.action.status = .running) :
    t.hear accepts callback = .ok (t.hold p progress) := by
  simp only [hear, hpending, hadvances.hear_eq hrunning, hstatus, Status.isTerminal,
    Bool.false_eq_true, if_false]
  rfl

theorem hear_of_terminal {p : Pending} {callback : Callback} {progress : Progress}
    (hpending : t.radio.pending = some p) (hrunning : p.action.status = .running)
    (hadvances : p.action.Advances accepts callback t.radio.attributes progress)
    (hstatus : progress.action.status.isTerminal = true) :
    t.hear accepts callback = .ok (t.settle p progress true false) := by
  simp only [hear, hpending, hadvances.hear_eq hrunning, hstatus, if_true]
  rfl

theorem drain_of_pending (h : t.radio.pending.isSome = true) : t.drain accepts = .ok t := by
  rw [drain]
  cases t.radio.queue.length with
  | zero => rfl
  | succ n => rw [drainWith, if_pos h]

theorem drain_of_nil (h : t.radio.queue = []) : t.drain accepts = .ok t := by
  rw [drain, h]
  rfl

theorem drain_of_single {q : Queued} (hpending : t.radio.pending = none)
    (hqueue : t.radio.queue = [q]) (hq : t.radio.defers q = false) :
    t.drain accepts = (t.take q [] []).dispatch accepts q.request := by
  have hdrop : List.dropWhile t.radio.defers [q] = [q] := by simp [hq]
  have htake : List.takeWhile t.radio.defers [q] = [] := by simp [hq]
  simp only [drain, hqueue, List.length_singleton, drainWith, hpending, hdrop, htake]
  cases hdispatch : (t.take q [] []).dispatch accepts q.request with
  | error crash =>
      simp only [take, List.nil_append] at hdispatch
      simp [note, hdispatch, bind, Except.bind]
  | ok u =>
      simp only [take, List.nil_append] at hdispatch
      simp [note, hdispatch, bind, Except.bind]

theorem dispatch_of_plan {r : Request} {destination : RadioState} {plan : Plan}
    (hroute : route t.radio.state r.operation = .accept destination)
    (hplan : Plan.build t.radio.timing r.operation t.radio.attributes t.radio.scanMode =
      .ok (some plan)) :
    t.dispatch accepts r = t.begin accepts r destination plan := by
  simp only [dispatch, hroute, hplan]

end Turn

/-! ## Scenes -/

/-- How far a transition has come: the commands that were answered, the one that waits with the
answer that is on its way, and those that are left. -/
structure Flight where
  request : Request
  hook : Hook
  answered : List Command
  waiting : Command
  left : List Command
  destination : RadioState
  answer : Callback

structure Scene where
  state : RadioState
  scanMode : Option ScanMode
  attributes : Attributes
  chip : Chip
  ledger : Ledger
  flight : Option Flight

def Flight.action (f : Flight) : Action where
  operation := f.request.operation
  commands := f.answered ++ f.waiting :: f.left
  hook := f.hook
  index := f.answered.length
  status := .running

@[simp] theorem Flight.action_current (f : Flight) :
    f.action.commands[f.action.index]? = some f.waiting := by
  simp [action]

@[simp] theorem Flight.action_next (f : Flight) :
    f.action.commands[f.action.index + 1]? = f.left.head? := by
  rw [action, List.getElem?_append_right (Nat.le_add_right _ _)]
  cases f.left <;> simp

@[simp] theorem Flight.action_set (f : Flight) (completed : Command) :
    f.action.commands.set f.action.index completed = f.answered ++ completed :: f.left := by
  simp [action]

/-- Sending a command takes a chip to another one and brings an answer on its way. -/
def Chip.Issues (chip : Chip) (command : Command) (d : Chip) (answer : Callback) : Prop :=
  match command.call with
  | some call => chip.call call = some (d, answer)
  | none => d = chip ∧ answer = .delayElapsed

/-- Where a transition to `destination` ends. -/
def Scene.target (s : Scene) (destination : RadioState) : Status → RadioState
  | .done => destination
  | .cancel | .fail => s.state
  | _ => .error

/-- The scene after the transition of a request. -/
def Scene.settled (s : Scene) (r : Request) (destination : RadioState) (status : Status)
    (attributes : Attributes) : Scene :=
  { s with
    state := s.target destination status
    scanMode :=
      if s.target destination status = .scanning then
        if status = .done then r.operation.scanMode.or s.scanMode else s.scanMode
      else none
    attributes
    ledger := s.ledger ++
      { endings := [(r.operation, status)], reports := r.id.toList.map (·, status.outcome) }
    flight := none }

/-- The scene in which a plan has been taken up. -/
def Scene.reported (s : Scene) (plan : Plan) : Scene :=
  { s with ledger := s.ledger ++ { results := plan.notices.filter Notification.isScanResult } }

/-- A request is carried out at a scene without a transition in flight. -/
inductive Scene.Begins (timing : Timing) (s : Scene) (r : Request) : Scene → Prop where
  | issue {destination : RadioState} {plan : Plan} {first : Command} {left : List Command}
      {chip : Chip} {answer : Callback} (hroute : route s.state r.operation = .accept destination)
      (hplan : Plan.build timing r.operation s.attributes s.scanMode = .ok (some plan))
      (hcommands : plan.action.commands = first :: left)
      (hissues : s.chip.Issues first chip answer) :
      Begins timing s r
        { s.reported plan with
          chip
          flight := some
            { request := r, hook := plan.action.hook, answered := [], waiting := first, left,
              destination, answer } }
  | flash {destination : RadioState} {plan : Plan} {attributes : Attributes}
      (hroute : route s.state r.operation = .accept destination)
      (hplan : Plan.build timing r.operation s.attributes s.scanMode = .ok (some plan))
      (hcommands : plan.action.commands = [])
      (hhook : plan.action.hook.apply .done [] s.attributes = .ok (attributes, [])) :
      Begins timing s r ((s.reported plan).settled r destination .done attributes)

/-- The answer on its way ends the transition in flight, with the operations that follow. -/
inductive Scene.Ends (s : Scene) : Scene → List Operation → Prop where
  | stopped {f : Flight} {completed : Command} {verdict : Verdict} {attributes : Attributes}
      {followups : List Operation} (hflight : s.flight = some f)
      (hcomplete : f.waiting.complete f.answer s.attributes.band = .ok (completed, verdict))
      (hverdict : verdict ≠ .success)
      (hhook : f.hook.apply verdict.status (f.answered ++ completed :: f.left) s.attributes =
        .ok (attributes, followups)) :
      Ends s (s.settled f.request f.destination verdict.status attributes) followups
  | finished {f : Flight} {completed : Command} {attributes : Attributes}
      {followups : List Operation} (hflight : s.flight = some f)
      (hcomplete : f.waiting.complete f.answer s.attributes.band = .ok (completed, .success))
      (hlast : f.left = [])
      (hhook : f.hook.apply .done (f.answered ++ [completed]) s.attributes =
        .ok (attributes, followups)) :
      Ends s (s.settled f.request f.destination .done attributes) followups

/-- What a delivery comes to. -/
inductive Scene.Delivers (timing : Timing) (s : Scene) : Scene → Prop where
  | advance {f : Flight} {completed next : Command} {left : List Command} {chip : Chip}
      {answer : Callback} (hflight : s.flight = some f)
      (hcomplete : f.waiting.complete f.answer s.attributes.band = .ok (completed, .success))
      (hleft : f.left = next :: left) (hissues : s.chip.Issues next chip answer) :
      Delivers timing s
        { s with
          chip
          flight := some
            { f with answered := f.answered ++ [completed], waiting := next, left, answer } }
  | rest {u : Scene} (hends : s.Ends u []) : Delivers timing s u
  | follow {u v : Scene} {operation : Operation} (hends : s.Ends u [operation])
      (hbegins : u.Begins timing { id := none, operation } v) : Delivers timing s v
  | poll {u : Scene} {mode : ScanMode} (hflight : s.flight = none) (hstate : s.state = .scanning)
      (hmode : s.scanMode = some mode)
      (hbegins : s.Begins timing { id := none, operation := .pollScan mode } u) :
      Delivers timing s u

/-! ## What turns show -/

/-- The part of a scene that the controller shows. -/
structure Controller.Shows (c : Controller) (timing : Timing) (s : Scene) : Prop where
  timing : c.timing = timing
  state : c.state = s.state
  scanMode : c.scanMode = s.scanMode
  attributes : c.attributes = s.attributes
  pending : c.pending.map (fun p ↦ (p.action, p.request, p.source, p.destination)) =
    s.flight.map fun f ↦ (f.action, f.request.id, s.state, f.destination)

/-- A turn shows a scene, if the chip was `before` and nothing was on its way. -/
structure Turn.Shows (t : Turn) (timing : Timing) (history : Journal) (before : Chip) (s : Scene) :
    Prop where
  radio : t.radio.Shows timing s
  chip : (before.serve t.journal.sent).1 = s.chip
  answers : (before.serve t.journal.sent).2 ++ t.journal.elapses =
    (s.flight.map Flight.answer).toList
  ledger : (history ++ t.journal).ledger = s.ledger

/-- What a step that ends in a scene leaves for the surroundings to do: the delay that has begun,
the timeout of a transition that is new, and the poll that a scan at rest waits for. -/
structure Journal.Arranges (j : Journal) (c : Controller) (s : Scene) : Prop where
  delays : j.delays = (s.flight.bind fun f ↦ f.waiting.delayMs).toList
  armed : ∀ f, s.flight = some f → f.answered = [] →
    ∃ id after, .effect (.armTimeout id after) ∈ j
  scheduled : s.flight = none → s.state = .scanning → c.generation ∈ j.polls

/-- A circuit shows a scene, after a history of its own. -/
structure Scene.Shown (timing : Timing) (settings : ChipSettings) (s : Scene) (history : Journal)
    (c : Circuit) : Prop where
  reached : ∃ events, Circuit.Reaches timing settings events history c
  queue : c.receiver.radio.queue = []
  radio : c.receiver.radio.Shows timing s
  chip : c.receiver.chip = s.chip
  inFlight : c.inFlight = (s.flight.map Flight.answer).toList
  ledger : history.ledger = s.ledger

theorem Chip.Issues.served {chip d : Chip} {command : Command} {answer : Callback}
    (h : chip.Issues command d answer) :
    command.accepted chip.accepts = true ∧
      (chip.serve (command.call.map (·, true)).toList).1 = d ∧
        (chip.serve (command.call.map (·, true)).toList).2 ++
          command.delayMs.toList.map (fun _ ↦ .delayElapsed) = [answer] := by
  rw [Issues] at h
  cases hcall : command.call with
  | none =>
      rw [hcall] at h
      obtain ⟨rfl, rfl⟩ := h
      refine ⟨by simp [Command.accepted, hcall], rfl, ?_⟩
      cases command <;> first | rfl | simp [Command.call] at hcall
  | some call =>
      rw [hcall] at h
      have hdelay : command.delayMs = none := by
        cases command <;> first | rfl | simp [Command.call] at hcall
      exact ⟨by simp [Command.accepted, hcall, accepts, h], by simp [serve, h],
        by simp [serve, h, hdelay]⟩

namespace Controller.Shows

variable {timing : Timing} {c d : Controller} {s : Scene}

theorem pending_none (h : c.Shows timing s) (hflight : s.flight = none) : c.pending = none := by
  simpa [hflight] using h.pending

theorem pending_some (h : c.Shows timing s) {f : Flight} (hflight : s.flight = some f) :
    ∃ p, c.pending = some p ∧ p.action = f.action ∧ p.request = f.request.id ∧
      p.source = s.state ∧ p.destination = f.destination := by
  have hpending := h.pending
  rw [hflight, Option.map_some, Option.map_eq_some_iff] at hpending
  obtain ⟨p, hp, heq⟩ := hpending
  simp only [Prod.mk.injEq] at heq
  exact ⟨p, hp, heq⟩

theorem target_eq {p : Pending} {f : Flight} (hsource : p.source = s.state)
    (hdestination : p.destination = f.destination) (action : Action) :
    (Turn.resolution { p with action := action } false).1 = s.target f.destination action.status := by
  cases hstatus : action.status <;> simp [Turn.resolution, Scene.target, *]

theorem settled (h : c.Shows timing s) {r : Request} {destination : RadioState}
    {status : Status} {attributes : Attributes} {p : Pending}
    (hattributes : d.attributes = attributes) (hsame : d.timing = c.timing ∧ d.state = c.state ∧
      d.scanMode = c.scanMode) (hpending : d.pending = none)
    (hoperation : p.action.operation = r.operation) (hstatus : p.action.status = status)
    (htarget : (Turn.resolution p false).1 = s.target destination status) :
    (d.resolved p false).Shows timing (s.settled r destination status attributes) := by
  obtain ⟨htiming, hstate, hmode⟩ := hsame
  constructor
  · exact htiming.trans h.timing
  · exact htarget
  · simp only [Controller.resolved, htarget, Controller.scanAfter, hoperation, hstatus, hmode,
      h.scanMode, Scene.settled]
  · exact hattributes
  · simp [Controller.resolved, hpending, Scene.settled]

end Controller.Shows

/-- A turn that has reached a scene without asking anything of the chip. -/
structure Turn.Rests (t : Turn) (timing : Timing) (history : Journal) (before : Chip) (s : Scene) :
    Prop where
  radio : t.radio.Shows timing s
  chip : before = s.chip
  sent : t.journal.sent = []
  elapses : t.journal.elapses = []
  ledger : (history ++ t.journal).ledger = s.ledger

namespace Turn.Rests

open Turn

variable {timing : Timing} {history : Journal} {before : Chip} {s u : Scene} {t : Turn}
  {p : Pending} {progress : Progress}

theorem launched (h : t.Rests timing history before s) {r : Request} {plan : Plan}
    (hbuilt : Plan.Built t.radio.timing t.radio.attributes t.radio.scanMode r.operation plan)
    (destination : RadioState) :
    (t.launch (t.radio.transition r destination plan.action) plan.notices).Rests timing history
      before (s.reported plan) := by
  have hcalm := launch_calm hbuilt (t.radio.transition r destination plan.action) t.radio
  obtain ⟨⟨htiming, hstate, hmode, hattributes, hpending⟩, hchip, hsent, helapses, hledger⟩ := h
  refine ⟨⟨htiming, hstate, hmode, hattributes, hpending⟩, hchip, ?_, ?_, ?_⟩
  · rw [launch_journal, Journal.sent_append, hsent, hcalm.sent]
    rfl
  · rw [launch_journal, Journal.elapses_append, helapses, hcalm.elapses]
    rfl
  · rw [launch_journal, ← List.append_assoc, Journal.ledger_append, hledger, Journal.ledger_begun]
    rfl

/-- A transition that goes on has sent a command, and the answer is on its way. -/
theorem hold (h : t.Rests timing history before s) {command : Command} {answer : Callback}
    (hissues : before.Issues command u.chip answer)
    (hanswer : u.flight.map Flight.answer = some answer) (hledger : u.ledger = s.ledger)
    (hsent : progress.sent = (command.call.map (·, true)).toList)
    (hdelays : progress.delays = command.delayMs.toList)
    (hradio : (t.hold p progress).radio.Shows timing u) :
    (t.hold p progress).Shows timing history before u ∧
      (t.hold p progress).journal.delays = command.delayMs.toList := by
  obtain ⟨-, hserved, hbrought⟩ := hissues.served
  have hsent' : (t.hold p progress).journal.sent = (command.call.map (·, true)).toList := by
    rw [hold_journal, Journal.sent_append, h.sent, (Journal.ofProgress_views _ progress).1, hsent,
      List.nil_append]
  have hdelays' : (t.hold p progress).journal.delays = command.delayMs.toList := by
    rw [hold_journal, Journal.delays_append, Journal.delays_eq_nil h.elapses,
      Journal.delays_ofProgress, hdelays, List.nil_append]
  refine ⟨⟨hradio, ?_, ?_, ?_⟩, hdelays'⟩
  · rw [hsent', hserved]
  · rw [hsent', Journal.elapses_eq, hdelays', hanswer]
    exact hbrought
  · rw [hold_journal, ← List.append_assoc, Journal.ledger_append, Journal.ledger_ofProgress,
      Ledger.append_empty, h.ledger, hledger]

/-- A transition that ends asks nothing more of the chip. -/
theorem settle (h : t.Rests timing history before s)
    (hprogress : progress.sent = [] ∧ progress.delays = []) {destination : RadioState}
    (htarget : (resolution { p with action := progress.action } false).1 =
      s.target destination progress.action.status) (armed : Bool) :
    (t.settle p progress armed false).Rests timing history before
      (s.settled ⟨p.request, progress.action.operation⟩ destination progress.action.status
        progress.attributes) := by
  obtain ⟨hps, hpe, -⟩ := Journal.ofProgress_views t.radio.arrivals progress
  obtain ⟨hes, hee, -⟩ := Journal.ofEnd_views (t.settling progress)
    { p with action := progress.action } armed false
  refine ⟨?_, h.chip, ?_, ?_, ?_⟩
  · rw [settle_radio]
    exact h.radio.settled rfl ⟨rfl, rfl, rfl⟩ rfl rfl rfl htarget
  · rw [settle_journal, Journal.sent_append, Journal.sent_append, h.sent, hps, hprogress.1, hes]
    rfl
  · rw [settle_journal, Journal.elapses_append, Journal.elapses_append, h.elapses, hpe, hprogress.2,
      hee]
    rfl
  · rw [settle_journal, ← List.append_assoc, ← List.append_assoc, Journal.ledger_append,
      Journal.ledger_append, h.ledger, Journal.ledger_ofProgress, Journal.ledger_ofEnd,
      Ledger.append_empty]
    rfl

/-- Where a transition ends in a scan, the next poll of it is scheduled. -/
theorem settle_arranges (h : t.Rests timing history before s)
    (hprogress : progress.sent = [] ∧ progress.delays = []) {destination : RadioState}
    (htarget : (resolution { p with action := progress.action } false).1 =
      s.target destination progress.action.status) (armed : Bool) :
    (t.settle p progress armed false).journal.Arranges (t.settle p progress armed false).radio
      (s.settled ⟨p.request, progress.action.operation⟩ destination progress.action.status
        progress.attributes) := by
  refine ⟨Journal.delays_eq_nil (h.settle hprogress htarget armed).elapses, by simp [Scene.settled],
    fun _ hscanning ↦ ?_⟩
  have hscan : s.target destination progress.action.status = .scanning := hscanning
  rw [settle_journal, Journal.polls_append, Journal.polls_ofEnd, htarget, if_pos hscan]
  simp [Controller.resolved, settling]

theorem shows (h : t.Rests timing history before s) (hflight : s.flight = none) :
    t.Shows timing history before s := by
  obtain ⟨hradio, hchip, hsent, helapses, hledger⟩ := h
  refine ⟨hradio, ?_, ?_, hledger⟩
  · rw [hsent]
    exact hchip
  · rw [hsent, helapses, hflight]
    rfl

end Turn.Rests

namespace Turn.Shows

open Turn

variable {timing : Timing} {history : Journal} {before : Chip} {s u : Scene} {t : Turn}

theorem rests (h : t.Shows timing history before s) (hsent : t.journal.sent = [])
    (hflight : s.flight = none) : t.Rests timing history before s := by
  refine ⟨h.radio, ?_, hsent, ?_, h.ledger⟩
  · simpa [hsent, Chip.serve] using h.chip
  · simpa [hsent, hflight, Chip.serve] using h.answers

/-- What is done about the queue changes nothing else. -/
theorem congr {v : Turn} (h : t.Shows timing history before s) {k : Journal}
    (hjournal : v.journal = t.journal ++ k) (hk : k.Calm) (hledger : k.ledger = {})
    (hradio : v.radio.Shows timing s) : v.Shows timing history before s := by
  obtain ⟨-, hchip, hanswers, hold⟩ := h
  refine ⟨hradio, ?_, ?_, ?_⟩
  · rw [hjournal, Journal.sent_append, hk.sent, List.append_nil]
    exact hchip
  · rw [hjournal, Journal.sent_append, Journal.elapses_append, hk.sent, hk.elapses,
      List.append_nil, List.append_nil]
    exact hanswers
  · rw [hjournal, ← List.append_assoc, Journal.ledger_append, hledger, Ledger.append_empty]
    exact hold

theorem begins (h : t.Shows timing history before s) (hsent : t.journal.sent = [])
    (hflight : s.flight = none) {r : Request} (hbegins : s.Begins timing r u) :
    ∃ v, t.dispatch before.accepts r = .ok v ∧ v.Shows timing history before u ∧
      v.journal.Arranges v.radio u ∧ v.radio.queue = t.radio.queue := by
  have hrests := h.rests hsent hflight
  have hpending := h.radio.pending_none hflight
  cases hbegins with
  | @issue destination plan first left chip answer hroute hplan hcommands hissues =>
      rw [← h.radio.state] at hroute
      rw [← h.radio.timing, ← h.radio.attributes, ← h.radio.scanMode] at hplan
      rw [← hrests.chip] at hissues
      have hbuilt := Plan.built_of_build hplan
      have hissued := Action.Begins.issued (a := t.radio.attributes) hcommands hissues.served.1
      rw [Turn.dispatch_of_plan hroute hplan,
        Turn.begin_of_running hissued hbuilt.action.2.1 rfl]
      let progress : Progress :=
        { action := { plan.action with index := 0, status := .running }
          attributes := t.radio.attributes
          exchanges := [.issued 0 first true] }
      have hprogress : progress.sent = (first.call.map (·, true)).toList ∧
          progress.delays = first.delayMs.toList :=
        ⟨Exchange.sent_issued 0 first true, Exchange.delay_issued 0 first true⟩
      let shown : Scene :=
        { s.reported plan with
          chip
          flight := some
            { request := r, hook := plan.action.hook, answered := [], waiting := first, left,
              destination, answer } }
      have hradio : ((t.launch (t.radio.transition r destination plan.action) plan.notices).hold
          (t.radio.transition r destination plan.action) progress).radio.Shows timing shown := by
        obtain ⟨htiming, hstate, hmode, hattributes, -⟩ := h.radio
        refine ⟨htiming, hstate, hmode, by simpa [shown, Scene.reported] using hattributes, ?_⟩
        simp [progress, shown, Flight.action, hbuilt.action.1, hcommands, hstate, Scene.reported]
      obtain ⟨hheld, hdelays⟩ := (hrests.launched hbuilt destination).hold (u := shown) hissues rfl
        rfl hprogress.1 hprogress.2 hradio
      refine ⟨_, rfl, hheld.congr (emit_journal ..) ?_ rfl hradio, ⟨?_, ?_, ?_⟩, by simp⟩
      · exact Journal.calm_of_entries (by simp [Entry.isCalm])
      · rw [emit_journal, Journal.delays_append]
        exact (List.append_nil _).trans hdelays
      · rw [emit_journal]
        exact fun _ _ _ ↦ ⟨_, _, List.mem_append_right _ List.mem_cons_self⟩
      · simp
  | @flash destination plan attributes hroute hplan hcommands hhook =>
      rw [← h.radio.state] at hroute
      rw [← h.radio.timing, ← h.radio.attributes, ← h.radio.scanMode] at hplan
      rw [← h.radio.attributes] at hhook
      have hbuilt := Plan.built_of_build hplan
      have hempty : plan.action.Begins before.accepts t.radio.attributes _ :=
        .empty hcommands hhook
      have hlaunched := hrests.launched hbuilt destination
      rw [Turn.dispatch_of_plan hroute hplan,
        Turn.begin_of_terminal hpending hempty hbuilt.action.2.1 rfl]
      obtain ⟨id, operation⟩ := r
      obtain rfl : plan.action.operation = operation := hbuilt.action.1
      exact ⟨_, rfl, (hlaunched.settle ⟨rfl, rfl⟩ rfl false).shows rfl,
        hlaunched.settle_arranges ⟨rfl, rfl⟩ rfl false, by simp [Controller.resolved]⟩

theorem drains (h : t.Shows timing history before s) (hsent : t.journal.sent = [])
    (hflight : s.flight = none) {q : Queued} (hqueue : t.radio.queue = [q])
    (hbegins : s.Begins timing q.request u) :
    ∃ v, t.drain before.accepts = .ok v ∧ v.Shows timing history before u ∧
      v.journal.Arranges v.radio u ∧ v.radio.queue = [] := by
  -- What a scene can begin is accepted in its state, so the queue does not hold it back.
  have hq : t.radio.defers q = false := by
    rw [Controller.defers, h.radio.state]
    cases hbegins with
    | issue hroute | flash hroute => simp [hroute]
  have htaken : (t.take q [] []).Shows timing history before s := by
    refine h.congr (take_journal ..) (Journal.calm_of_entries (by simp [Entry.isCalm])) rfl ?_
    obtain ⟨htiming, hstate, hmode, hattributes, hpending⟩ := h.radio
    exact ⟨htiming, hstate, hmode, hattributes, hpending⟩
  have hquiet : (t.take q [] []).journal.sent = [] := by
    rw [take_journal, Journal.sent_append, hsent]
    rfl
  rw [drain_of_single (h.radio.pending_none hflight) hqueue hq]
  exact htaken.begins hquiet hflight hbegins

end Turn.Shows

namespace Flight

variable {f : Flight} {accepts : Call → Bool} {a : Attributes} {completed next : Command}

theorem advances (hcomplete : f.waiting.complete f.answer a.band = .ok (completed, .success))
    {left : List Command} (hleft : f.left = next :: left)
    (haccepted : next.accepted accepts = true) (answer : Callback) :
    ∃ progress, f.action.Advances accepts f.answer a progress ∧
      progress.action =
        action { f with answered := f.answered ++ [completed], waiting := next, left, answer } ∧
      progress.attributes = a ∧ progress.followups = [] ∧
      progress.sent = (next.call.map (·, true)).toList ∧
      progress.delays = next.delayMs.toList := by
  refine ⟨_, .issued f.action_current hcomplete (by simp [hleft]) haccepted, ?_, rfl, rfl, ?_, ?_⟩
  · rw [action_set, hleft]
    simp [action]
  · exact Exchange.sent_issued (f.action.index + 1) next true
  · exact Exchange.delay_issued (f.action.index + 1) next true

end Flight

theorem Scene.Ends.advances {s u : Scene} {followups : List Operation} (h : s.Ends u followups)
    (accepts : Call → Bool) :
    ∃ f progress, s.flight = some f ∧ f.action.Advances accepts f.answer s.attributes progress ∧
      progress.action.status.isTerminal = true ∧ progress.followups = followups ∧
      (progress.sent = [] ∧ progress.delays = []) ∧
      u = s.settled ⟨f.request.id, progress.action.operation⟩ f.destination progress.action.status
        progress.attributes := by
  cases h with
  | @stopped f completed verdict attributes _ hflight hcomplete hverdict hhook =>
      have hterminal := Action.verdict_status_isTerminal hverdict
      rw [← f.action_set] at hhook
      exact ⟨f, _, hflight, .stopped f.action_current hcomplete hverdict hhook, hterminal, rfl,
        ⟨rfl, rfl⟩, rfl⟩
  | @finished f completed attributes _ hflight hcomplete hlast hhook =>
      have hlength : f.action.commands.length = f.action.index + 1 := by
        simp [Flight.action, hlast]
      rw [show f.answered ++ [completed] = f.answered ++ completed :: f.left by rw [hlast],
        ← f.action_set] at hhook
      exact ⟨f, _, hflight, .finished f.action_current hcomplete hlength hhook, rfl, rfl,
        ⟨rfl, rfl⟩, rfl⟩

/-! ## What circuits show -/

/-- An event takes a circuit with a history to a scene. -/
def Circuit.TakesTo (c : Circuit) (timing : Timing) (settings : ChipSettings) (history : Journal)
    (event : Event) (s : Scene) : Prop :=
  ∃ d journal, c.step event = .ok (d, journal) ∧ s.Shown timing settings (history ++ journal) d ∧
    journal.Arranges d.receiver.radio s

/-- The event that goes on with a scene: the answer on its way, or the poll of a scan at rest. -/
def Scene.event (s : Scene) (c : Controller) : Event :=
  match s.flight with
  | some f => .callback f.answer
  | none => .pollDue c.generation

namespace Scene.Shown

variable {timing : Timing} {settings : ChipSettings} {history : Journal} {s u : Scene} {c : Circuit}

theorem turn (h : s.Shown timing settings history c) :
    Turn.Rests { radio := c.receiver.radio } timing history c.receiver.chip s :=
  ⟨h.radio, h.chip, rfl, rfl, by simpa using h.ledger⟩

theorem of_turn (h : s.Shown timing settings history c) {event : Event}
    (hoffers : c.Offers event) (hleft : c.left event = []) {turn : Turn}
    (hstep : c.receiver.radio.step c.receiver.chip.accepts event = .ok turn)
    (hshows : turn.Shows timing history c.receiver.chip u)
    (harranges : turn.journal.Arranges turn.radio u) (hqueue : turn.radio.queue = []) :
    c.TakesTo timing settings history event u := by
  obtain ⟨events, hreached⟩ := h.reached
  have hcircuit := Circuit.step_of_turn hstep
  refine ⟨_, _, hcircuit, ⟨⟨_, hreached.step hoffers hcircuit⟩, hqueue, hshows.radio, hshows.chip,
    ?_, hshows.ledger⟩, harranges⟩
  rw [hleft]
  exact hshows.answers

theorem asks (h : s.Shown timing settings history c) (hflight : s.flight = none) {r : Request}
    (hbegins : s.Begins timing r u) : c.TakesTo timing settings history (.request r) u := by
  have hinFlight : c.inFlight = [] := by simpa [hflight] using h.inFlight
  have hqueued : (Turn.enqueue { radio := c.receiver.radio } r).Shows timing history
      c.receiver.chip s := by
    refine (h.turn.shows hflight).congr (Turn.enqueue_journal ..)
      (Journal.calm_of_entries (by simp [Entry.isCalm])) rfl ?_
    obtain ⟨htiming, hstate, hmode, hattributes, hpending⟩ := h.radio
    exact ⟨htiming, hstate, hmode, hattributes, hpending⟩
  obtain ⟨v, hv, hshows, harranges, hqueue⟩ := hqueued.drains rfl hflight
    (q := { ticket := c.receiver.radio.arrivals, request := r }) (by simp [h.queue]) hbegins
  refine h.of_turn trivial hinFlight ?_ hshows harranges hqueue
  rw [Controller.step, if_neg (by simp), Turn.react]
  exact hv

theorem request (h : s.Shown timing settings history c) (hflight : s.flight = none) {r : Request}
    (hbegins : s.Begins timing r u) :
    ∃ d journal, c.step (.request r) = .ok (d, journal) ∧
      u.Shown timing settings (history ++ journal) d := by
  obtain ⟨d, journal, hstep, hshown, -⟩ := h.asks hflight hbegins
  exact ⟨d, journal, hstep, hshown⟩

/-- The answer that is on its way is the only thing to deliver. -/
theorem answer_only (h : s.Shown timing settings history c) {f : Flight}
    (hflight : s.flight = some f) :
    c.Live history (.callback f.answer) ∧ c.left (.callback f.answer) = [] ∧
      ∀ e, c.Live history e → e = .callback f.answer := by
  have hinFlight : c.inFlight = [f.answer] := by simpa [hflight] using h.inFlight
  obtain ⟨p, hpending, -⟩ := h.radio.pending_some hflight
  refine ⟨by simp [Circuit.Live, hinFlight], by simp [Circuit.left, hinFlight], fun e he ↦ ?_⟩
  cases e with
  | callback answer =>
      rw [Circuit.Live, hinFlight, List.mem_singleton] at he
      rw [he]
  | pollDue generation => simp [Circuit.Live, Controller.Ignores, hpending] at he
  | _ => exact he.elim

/-- In a scan at rest the poll that is due is the only thing to deliver. -/
theorem poll_only (h : s.Shown timing settings history c) (hflight : s.flight = none)
    (hstate : s.state = .scanning) {mode : ScanMode} (hmode : s.scanMode = some mode) :
    c.Live history (.pollDue c.receiver.radio.generation) ∧
      ∀ e, c.Live history e → e = .pollDue c.receiver.radio.generation := by
  obtain ⟨events, hreached⟩ := h.reached
  obtain ⟨script, -, hrun⟩ := hreached.run_eq
  have hpending := h.radio.pending_none hflight
  have hscanning := h.radio.state.trans hstate
  have hscheduled := (Controller.run_paced hrun).1.live.mpr ⟨hpending, hscanning⟩
  have hinFlight : c.inFlight = [] := by simpa [hflight] using h.inFlight
  refine ⟨⟨hscheduled, ?_⟩, fun e he ↦ ?_⟩
  · simp [Controller.Ignores, hpending, hscanning, h.radio.scanMode, hmode]
  · cases e with
    | callback answer => simp [Circuit.Live, hinFlight] at he
    | pollDue generation =>
        have hlive : ¬ (generation ≠ c.receiver.radio.generation ∨ _) := he.2
        rw [not_or, Decidable.not_not] at hlive
        rw [hlive.1]
    | _ => exact he.elim

/-- Outside of scans there is nothing to deliver once no transition is in flight. -/
theorem quiet (h : s.Shown timing settings history c) (hflight : s.flight = none)
    (hstate : s.state ≠ .scanning) : ∀ event, ¬ c.Live history event := by
  have hinFlight : c.inFlight = [] := by simpa [hflight] using h.inFlight
  intro event hlive
  cases event with
  | callback answer => simp [Circuit.Live, hinFlight] at hlive
  | pollDue generation => exact hlive.2 (by simp [Controller.Ignores, h.radio.state, hstate])
  | _ => exact hlive

theorem advance (h : s.Shown timing settings history c) {f : Flight} {completed next : Command}
    {left : List Command} {chip : Chip} {answer : Callback} (hflight : s.flight = some f)
    (hcomplete : f.waiting.complete f.answer s.attributes.band = .ok (completed, .success))
    (hleft : f.left = next :: left) (hissues : s.chip.Issues next chip answer) :
    c.TakesTo timing settings history (.callback f.answer)
      { s with
        chip
        flight := some
          { f with answered := f.answered ++ [completed], waiting := next, left, answer } } := by
  obtain ⟨p, hpending, haction, hrequest, hsource, hdestination⟩ := h.radio.pending_some hflight
  obtain ⟨hlive, hgone, -⟩ := h.answer_only hflight
  have haccepted := hissues.served.1
  rw [← h.chip] at haccepted
  rw [← h.radio.attributes] at hcomplete
  obtain ⟨progress, hadvances, hnow, hattributes, hfollowups, hsent, hdelays⟩ :=
    f.advances hcomplete hleft haccepted answer
  rw [← haction] at hadvances
  have hheard := Turn.hear_of_running (t := { radio := c.receiver.radio }) hpending
    (by rw [haction]; rfl) hadvances (by rw [hnow]; rfl)
  have hstep : c.receiver.radio.step c.receiver.chip.accepts (.callback f.answer) =
      .ok (Turn.hold { radio := c.receiver.radio } p progress) := by
    rw [Controller.step, if_neg (by simp), Turn.react, hheard]
    exact Turn.drain_of_pending (by simp)
  let shown : Scene :=
    { s with
      chip
      flight := some
        { f with answered := f.answered ++ [completed], waiting := next, left, answer } }
  have hradio : (Turn.hold { radio := c.receiver.radio } p progress).radio.Shows timing shown := by
    obtain ⟨htiming, hstate, hmode, hknown, -⟩ := h.radio
    rw [Turn.hold_radio]
    refine ⟨htiming, hstate, hmode, ?_, ?_⟩
    · rw [hattributes]
      exact hknown
    · simp [shown, hnow, hrequest, hsource, hdestination]
  obtain ⟨hheld, harmed⟩ :=
    h.turn.hold (u := shown) (h.chip ▸ hissues) rfl rfl hsent hdelays hradio
  refine h.of_turn hlive hgone hstep hheld ⟨harmed, ?_, by simp⟩ (by simp [hfollowups, h.queue])
  rintro g ⟨⟩ hnil
  simp at hnil

/-- The turn in which the answer ends the transition, before the queue is looked at. -/
theorem ends (h : s.Shown timing settings history c) {followups : List Operation}
    (hends : s.Ends u followups) :
    ∃ f turn, s.flight = some f ∧
      Turn.react c.receiver.chip.accepts { radio := c.receiver.radio } (.callback f.answer) =
        .ok turn ∧
      turn.Rests timing history c.receiver.chip u ∧ turn.journal.Arranges turn.radio u ∧
      u.flight = none ∧
      turn.radio.queue = Journal.followups c.receiver.radio.arrivals followups := by
  obtain ⟨f, progress, hflight, hadvances, hstatus, rfl, hquiet, rfl⟩ :=
    hends.advances c.receiver.chip.accepts
  obtain ⟨p, hpending, haction, hrequest, hsource, hdestination⟩ := h.radio.pending_some hflight
  rw [← haction, ← h.radio.attributes] at hadvances
  have hheard := Turn.hear_of_terminal (t := { radio := c.receiver.radio }) hpending
    (by rw [haction]; rfl) hadvances hstatus
  have htarget := Controller.Shows.target_eq hsource hdestination progress.action
  rw [← hrequest]
  refine ⟨f, _, hflight, hheard, h.turn.settle hquiet htarget true,
    h.turn.settle_arranges hquiet htarget true, rfl, ?_⟩
  simp [Controller.resolved, h.queue]

theorem rest (h : s.Shown timing settings history c) (hends : s.Ends u []) :
    ∃ f, s.flight = some f ∧ c.TakesTo timing settings history (.callback f.answer) u := by
  obtain ⟨f, turn, hflight, hturn, hrests, harranges, hfree, hqueue⟩ := h.ends hends
  obtain ⟨hlive, hgone, -⟩ := h.answer_only hflight
  have hstep : c.receiver.radio.step c.receiver.chip.accepts (.callback f.answer) = .ok turn := by
    rw [Controller.step, if_neg (by simp), hturn]
    exact Turn.drain_of_nil hqueue
  exact ⟨f, hflight, h.of_turn hlive.offers hgone hstep (hrests.shows hfree) harranges hqueue⟩

theorem follow {v : Scene} (h : s.Shown timing settings history c) {operation : Operation}
    (hends : s.Ends u [operation]) (hbegins : u.Begins timing { id := none, operation } v) :
    ∃ f, s.flight = some f ∧ c.TakesTo timing settings history (.callback f.answer) v := by
  obtain ⟨f, turn, hflight, hturn, hrests, -, hfree, hqueue⟩ := h.ends hends
  obtain ⟨hlive, hgone, -⟩ := h.answer_only hflight
  obtain ⟨w, hw, hshows, harranges, hnil⟩ :=
    (hrests.shows hfree).drains hrests.sent hfree hqueue hbegins
  have hstep : c.receiver.radio.step c.receiver.chip.accepts (.callback f.answer) = .ok w := by
    rw [Controller.step, if_neg (by simp), hturn]
    exact hw
  exact ⟨f, hflight, h.of_turn hlive.offers hgone hstep hshows harranges hnil⟩

theorem poll (h : s.Shown timing settings history c) (hflight : s.flight = none)
    (hstate : s.state = .scanning) {mode : ScanMode} (hmode : s.scanMode = some mode)
    (hbegins : s.Begins timing { id := none, operation := .pollScan mode } u) :
    c.TakesTo timing settings history (.pollDue c.receiver.radio.generation) u := by
  have hinFlight : c.inFlight = [] := by simpa [hflight] using h.inFlight
  obtain ⟨v, hv, hshows, harranges, hqueue⟩ := (h.turn.shows hflight).begins rfl hflight hbegins
  refine h.of_turn trivial hinFlight ?_ hshows harranges (hqueue.trans h.queue)
  rw [Controller.step, if_neg (by simp), Turn.react, Turn.poll, if_neg]
  · simp only [h.radio.scanMode, hmode, hv, bind, Except.bind]
    exact Turn.drain_of_nil (hqueue.trans h.queue)
  · simp [h.radio.pending_none hflight, h.radio.state, hstate]

end Scene.Shown

/-- There is one event to deliver, and it takes the circuit to what the delivery comes to. -/
theorem Scene.Delivers.step {timing : Timing} {settings : ChipSettings} {history : Journal}
    {s u : Scene} {c : Circuit} (h : s.Delivers timing u)
    (hshown : s.Shown timing settings history c) :
    c.Live history (s.event c.receiver.radio) ∧
      (∀ e, c.Live history e → e = s.event c.receiver.radio) ∧
      c.TakesTo timing settings history (s.event c.receiver.radio) u := by
  have hanswer : ∀ f, s.flight = some f →
      c.TakesTo timing settings history (.callback f.answer) u →
        c.Live history (s.event c.receiver.radio) ∧
          (∀ e, c.Live history e → e = s.event c.receiver.radio) ∧
          c.TakesTo timing settings history (s.event c.receiver.radio) u := by
    intro f hflight htakes
    obtain ⟨hlive, -, honly⟩ := hshown.answer_only hflight
    simp only [event, hflight]
    exact ⟨hlive, honly, htakes⟩
  cases h with
  | advance hflight hcomplete hleft hissues =>
      exact hanswer _ hflight (hshown.advance hflight hcomplete hleft hissues)
  | rest hends =>
      obtain ⟨f, hflight, htakes⟩ := hshown.rest hends
      exact hanswer f hflight htakes
  | follow hends hbegins =>
      obtain ⟨f, hflight, htakes⟩ := hshown.follow hends hbegins
      exact hanswer f hflight htakes
  | poll hflight hstate hmode hbegins =>
      obtain ⟨hlive, honly⟩ := hshown.poll_only hflight hstate hmode
      simp only [event, hflight]
      exact ⟨hlive, honly, hshown.poll hflight hstate hmode hbegins⟩

/-! ## Courses -/

/-- At most `n` deliveries lead from a scene to another, and up to there `P` holds of what is
seen. -/
inductive Scene.Course (timing : Timing) (P : Scene → Prop) : Nat → Scene → Scene → Prop where
  | refl (n : Nat) (s : Scene) : Course timing P n s s
  | head {n : Nat} {s u v : Scene} (hs : P s) (hdelivers : s.Delivers timing u)
      (hcourse : Course timing P n u v) : Course timing P (n + 1) s v

namespace Scene.Course

variable {timing : Timing} {P Q : Scene → Prop} {m n : Nat} {s u v : Scene}

theorem single (hs : P s) (h : s.Delivers timing u) : Course timing P 1 s u :=
  .head hs h (.refl 0 u)

theorem le (h : Course timing P m s u) (hle : m ≤ n) : Course timing P n s u := by
  induction h generalizing n with
  | refl => exact .refl n _
  | head hs hdelivers _ ih =>
      obtain ⟨k, rfl⟩ := Nat.exists_eq_add_of_lt (Nat.lt_of_succ_le hle)
      exact .head hs hdelivers (ih (Nat.le_add_right _ k))

theorem trans (h : Course timing P m s u) (hv : Course timing P n u v) :
    Course timing P (m + n) s v := by
  induction h with
  | refl => exact hv.le (Nat.le_add_left n _)
  | head hs hdelivers _ ih =>
      rw [Nat.add_right_comm]
      exact .head hs hdelivers (ih hv)

theorem mono (h : Course timing P n s u) (hPQ : ∀ s, P s → Q s) : Course timing Q n s u := by
  induction h with
  | refl => exact .refl _ _
  | head hs hdelivers _ ih => exact .head (hPQ _ hs) hdelivers ih

/-- A circuit that shows the beginning of a course arrives at the end of it. -/
theorem leads (h : Course timing P n s u) (settings : ChipSettings) :
    Circuit.Leads n (s.Shown timing settings) (u.Shown timing settings) := by
  induction h with
  | refl => exact (Circuit.Leads.refl _).le (Nat.zero_le _)
  | head _ hdelivers _ ih =>
      intro history c hshown
      obtain ⟨hlive, honly, d, journal, hstep, hd, -⟩ := hdelivers.step hshown
      exact .of_only hlive honly hstep (ih _ _ hd)

end Scene.Course

end FmTuner
