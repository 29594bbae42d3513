import FmTuner.Controller.Step

/-!
# What the moves of a turn leave behind

For every operation on turns, the controller that it leaves and the entries that it adds to the
journal. None of them looks at the journal, so a turn may be played after any history.
-/

namespace FmTuner

namespace Journal

def ofReport (id : Option RequestId) (outcome : Outcome) : Journal :=
  id.toList.map fun id ↦ .effect (.complete id outcome)

/-- The entries that announce a change of state. -/
def ofChange (old new : RadioState) : Journal :=
  if new = old then []
  else
    .effect (.notify (.stateChanged old new)) ::
      match new with
      | .idle => [.effect (.notify (.forcedReset forcedResetNormal))]
      | .error => [.effect (.notify .error)]
      | _ => []

def ofPoll (target : RadioState) (generation after : Nat) : Journal :=
  if target = .scanning then [.effect (.schedulePoll generation after)] else []

/-- The entries for the readings of a radio that changed during a transition. -/
def ofReadings (p : Pending) (a : Attributes) : Journal :=
  (match a.signalStrength with
    | some level =>
        if p.signalBefore = some level then []
        else [.effect (.notify (.signalStrengthChanged level))]
    | none => []) ++
  if p.stereoBefore = a.stereo then [] else [.effect (.notify (.stereoChanged a.stereo))]

def ofStart (p : Pending) : Journal :=
  if p.action.status = .done ∧ p.action.operation.isStart then [.effect (.notify .started)] else []

/-- The requests that follow an action, with tickets from `first` on. -/
def followups (first : Nat) : List Operation → List Queued
  | [] => []
  | operation :: rest => ⟨first, { id := none, operation }⟩ :: followups (first + 1) rest

/-- The entries for what an action did, with tickets from `first` on for what follows. -/
def ofProgress (first : Nat) (p : Progress) : Journal :=
  p.exchanges.map .exchanged ++ p.delays.map (fun ms ↦ .effect (.armDelay ms)) ++
    (followups first p.followups).map .queued

@[simp] theorem followups_nil (first : Nat) : followups first [] = [] := rfl

@[simp] theorem followups_cons (first : Nat) (operation : Operation) (rest : List Operation) :
    followups first (operation :: rest) =
      ⟨first, { id := none, operation }⟩ :: followups (first + 1) rest := rfl

end Journal

attribute [ext] Turn

namespace Turn

variable (t : Turn)

/-! ## Entries and effects -/

@[simp] theorem note_radio (e : Entry) : (t.note e).radio = t.radio := rfl

@[simp] theorem note_journal (e : Entry) : (t.note e).journal = t.journal ++ [e] := rfl

@[simp] theorem emit_radio (e : Effect) : (t.emit e).radio = t.radio := rfl

@[simp] theorem emit_journal (e : Effect) : (t.emit e).journal = t.journal ++ [.effect e] := rfl

@[simp] theorem notify_radio (n : Notification) : (t.notify n).radio = t.radio := rfl

@[simp] theorem notify_journal (n : Notification) :
    (t.notify n).journal = t.journal ++ [.effect (.notify n)] := rfl

@[simp] theorem report_radio (id : Option RequestId) (outcome : Outcome) :
    (t.report id outcome).radio = t.radio := by
  cases id <;> rfl

@[simp] theorem report_journal (id : Option RequestId) (outcome : Outcome) :
    (t.report id outcome).journal = t.journal ++ Journal.ofReport id outcome := by
  cases id <;> simp [report, Journal.ofReport]

@[simp] theorem enqueue_radio (r : Request) :
    (t.enqueue r).radio =
      { t.radio with
        queue := t.radio.queue ++ [⟨t.radio.arrivals, r⟩]
        arrivals := t.radio.arrivals + 1 } := rfl

@[simp] theorem enqueue_journal (r : Request) :
    (t.enqueue r).journal = t.journal ++ [.queued ⟨t.radio.arrivals, r⟩] := rfl

/-! ## Taking over the progress of an action -/

theorem foldl_enqueue_radio (operations : List Operation) :
    (operations.foldl (fun t operation ↦ t.enqueue { id := none, operation }) t).radio =
      { t.radio with
        queue := t.radio.queue ++ Journal.followups t.radio.arrivals operations
        arrivals := t.radio.arrivals + operations.length } := by
  induction operations generalizing t with
  | nil => simp
  | cons operation rest ih => simp [ih, Nat.add_assoc, Nat.add_comm 1]

theorem foldl_enqueue_journal (operations : List Operation) :
    (operations.foldl (fun t operation ↦ t.enqueue { id := none, operation }) t).journal =
      t.journal ++ (Journal.followups t.radio.arrivals operations).map .queued := by
  induction operations generalizing t with
  | nil => simp
  | cons operation rest ih => simp [ih]

@[simp] theorem absorb_radio (p : Progress) :
    (t.absorb p).radio =
      { t.radio with
        attributes := p.attributes
        queue := t.radio.queue ++ Journal.followups t.radio.arrivals p.followups
        arrivals := t.radio.arrivals + p.followups.length } := by
  simp [absorb, foldl_enqueue_radio]

@[simp] theorem absorb_journal (p : Progress) :
    (t.absorb p).journal = t.journal ++ Journal.ofProgress t.radio.arrivals p := by
  simp [absorb, Journal.ofProgress, foldl_enqueue_journal]

/-! ## Entering a state -/

@[simp] theorem announce_radio (old new : RadioState) : (t.announce old new).radio = t.radio := by
  cases new <;> rfl

theorem enter_eq (target : RadioState) :
    t.enter target =
      let moved : Turn :=
        { radio := { t.radio with
            state := target
            changes := if target = t.radio.state then t.radio.changes else t.radio.changes + 1 }
          journal := t.journal ++ Journal.ofChange t.radio.state target }
      if target = .scanning then
        moved.emit (.schedulePoll t.radio.generation t.radio.timing.pollInterval)
      else { moved with radio.scanMode := none } := by
  by_cases hstate : target = t.radio.state
  · subst hstate
    simp [enter, Journal.ofChange]
  · rw [enter, if_neg hstate]
    obtain ⟨c, j⟩ := t
    cases target <;> simp [announce, notify, emit, note, Journal.ofChange, hstate]

@[simp] theorem enter_radio (target : RadioState) :
    (t.enter target).radio =
      { t.radio with
        state := target
        scanMode := if target = .scanning then t.radio.scanMode else none
        changes := if target = t.radio.state then t.radio.changes else t.radio.changes + 1 } := by
  rw [enter_eq]
  by_cases h : target = .scanning <;> simp [h]

@[simp] theorem enter_journal (target : RadioState) :
    (t.enter target).journal =
      t.journal ++ Journal.ofChange t.radio.state target ++
        Journal.ofPoll target t.radio.generation t.radio.timing.pollInterval := by
  rw [enter_eq]
  by_cases h : target = .scanning <;> simp [Journal.ofPoll, h]

/-! ## Ending a transition -/

@[simp] theorem announceReadings_radio (p : Pending) : (t.announceReadings p).radio = t.radio := by
  cases hsignal : t.radio.attributes.signalStrength with
  | none =>
      by_cases hstereo : p.stereoBefore = t.radio.attributes.stereo <;>
        simp [announceReadings, hsignal, hstereo]
  | some level =>
      by_cases hlevel : p.signalBefore = some level <;>
        by_cases hstereo : p.stereoBefore = t.radio.attributes.stereo <;>
          simp [announceReadings, hsignal, hlevel, hstereo]

@[simp] theorem announceReadings_journal (p : Pending) :
    (t.announceReadings p).journal = t.journal ++ Journal.ofReadings p t.radio.attributes := by
  cases hsignal : t.radio.attributes.signalStrength with
  | none =>
      by_cases hstereo : p.stereoBefore = t.radio.attributes.stereo <;>
        simp [announceReadings, Journal.ofReadings, hsignal, hstereo]
  | some level =>
      by_cases hlevel : p.signalBefore = some level <;>
        by_cases hstereo : p.stereoBefore = t.radio.attributes.stereo <;>
          simp [announceReadings, Journal.ofReadings, hsignal, hlevel, hstereo]

end Turn

/-- The scan that a radio is on after a transition, as long as it is scanning. -/
def Controller.scanAfter (c : Controller) (p : Pending) : Option ScanMode :=
  if p.action.status = .done then p.action.operation.scanMode.or c.scanMode else c.scanMode

/-- The controller after a transition. -/
def Controller.resolved (c : Controller) (p : Pending) (timedOut : Bool) : Controller :=
  let target := (Turn.resolution p timedOut).1
  { c with
    state := target
    scanMode := if target = .scanning then c.scanAfter p else none
    changes := if target = c.state then c.changes else c.changes + 1 }

namespace Turn

variable (t : Turn)

def close (t : Turn) (p : Pending) (timedOut : Bool) : Turn :=
  { t with
    journal := t.journal ++ Journal.ofStart p ++ Journal.ofReadings p t.radio.attributes ++
      [.resolved p timedOut t.radio] ++
      Journal.ofReport p.request (resolution p timedOut).2 }

theorem resolve_eq (p : Pending) (armed timedOut : Bool) :
    t.resolve p armed timedOut =
      (Turn.enter
        { radio := { t.radio with scanMode := t.radio.scanAfter p }
          journal := t.journal ++ if armed then [.effect .disarmTimeout] else [] }
        (resolution p timedOut).1).close p timedOut := by
  have hclose : ∀ u : Turn, (((if p.action.status = .done ∧ p.action.operation.isStart
        then u.notify .started else u).announceReadings p).note
          (.resolved p timedOut u.radio)).report p.request (resolution p timedOut).2 =
        u.close p timedOut := by
    intro u
    apply Turn.ext
    · by_cases hstart : p.action.status = .done ∧ p.action.operation.isStart <;>
        simp [close, hstart]
    · by_cases hstart : p.action.status = .done ∧ p.action.operation.isStart <;>
        simp [close, Journal.ofStart, hstart]
  have hradio : ∀ u : Turn, ((if p.action.status = .done ∧ p.action.operation.isStart
      then u.notify .started else u).announceReadings p).radio = u.radio := by
    intro u
    split <;> simp
  simp only [resolve, hradio, hclose]
  cases armed <;> cases hmode : p.action.operation.scanMode <;>
    by_cases hdone : p.action.status = .done <;>
      simp [emit, note, Controller.scanAfter, hmode, hdone]

@[simp] theorem resolve_radio (p : Pending) (armed timedOut : Bool) :
    (t.resolve p armed timedOut).radio = t.radio.resolved p timedOut := by
  rw [resolve_eq]
  simp [close, Controller.resolved, Controller.scanAfter]

end Turn

/-- The entries that the end of a transition adds. -/
def Journal.ofEnd (c : Controller) (p : Pending) (armed timedOut : Bool) : Journal :=
  (if armed then [.effect .disarmTimeout] else []) ++
    Journal.ofChange c.state (Turn.resolution p timedOut).1 ++
    Journal.ofPoll (Turn.resolution p timedOut).1 c.generation c.timing.pollInterval ++
    Journal.ofStart p ++ Journal.ofReadings p c.attributes ++
    .resolved p timedOut (c.resolved p timedOut) ::
    Journal.ofReport p.request (Turn.resolution p timedOut).2

@[simp] theorem Turn.resolve_journal (t : Turn) (p : Pending) (armed timedOut : Bool) :
    (t.resolve p armed timedOut).journal =
      t.journal ++ Journal.ofEnd t.radio p armed timedOut := by
  rw [resolve_eq]
  simp [close, Journal.ofEnd, Controller.resolved, Controller.scanAfter]

end FmTuner
