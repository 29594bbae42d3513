import FmTuner.Proofs.Arrivals
import FmTuner.Proofs.Reports
import FmTuner.Proofs.StopViews

/-!
# Accounts of transitions

An account is all that a journal tells of one transition: the request, the controller in which it
began, the plan that was made and what has happened since. While the transition is in flight its
commands have been taken and confirmed one after the other, and the radio is as it was at the
beginning. `Account.Closed` says what its end can be.
-/

namespace FmTuner

/-! ## Rounds -/

/-- A command that was taken by the link and confirmed by a callback. -/
structure Round where
  command : Command
  /-- The command with what the callback made of it. -/
  completed : Command
  callback : Callback

structure Round.Confirmed (band : Band) (r : Round) : Prop where
  success : r.command.complete r.callback band = .ok (r.completed, .success)
  delay : ∀ ms, r.command = .delay ms → r.callback = .delayElapsed

theorem Round.confirmed_of_complete {band : Band} {command completed : Command}
    {callback : Callback} (h : command.complete callback band = .ok (completed, .success)) :
    Round.Confirmed band ⟨command, completed, callback⟩ := by
  refine ⟨h, fun ms hdelay ↦ ?_⟩
  subst hdelay
  cases callback with
  | delayElapsed => rfl
  | _ => simp [Command.complete] at h

/-- The exchanges of rounds, each of which is over before the next begins. -/
def Exchange.ofRounds (rounds : List Round) : List Exchange :=
  rounds.zipIdx.flatMap fun x ↦
    [.issued x.2 x.1.command true, .answered x.2 x.1.completed x.1.callback .success]

@[simp] theorem Exchange.ofRounds_nil : ofRounds [] = [] := rfl

@[simp] theorem Exchange.ofRounds_snoc (rounds : List Round) (r : Round) :
    ofRounds (rounds ++ [r]) = ofRounds rounds ++
      [.issued rounds.length r.command true,
        .answered rounds.length r.completed r.callback .success] := by
  simp [ofRounds, List.zipIdx_append]

def Entry.exchange? : Entry → Option Exchange
  | .exchanged x => some x
  | _ => none

/-- Whether an entry is a dispatch, the beginning or the end of a transition, or a report. -/
def Entry.isMilestone : Entry → Bool
  | .dispatched .. | .begun .. | .resolved .. | .effect (.complete ..) => true
  | _ => false

namespace Journal

/-- What was exchanged with the chip, in order. -/
def exchanges (j : Journal) : List Exchange := j.filterMap Entry.exchange?

@[simp] theorem exchanges_append (j k : Journal) :
    exchanges (j ++ k) = exchanges j ++ exchanges k := by
  simp [exchanges]

theorem exchanges_eq_nil {j : Journal} (h : ∀ e ∈ j, e.exchange? = none) : exchanges j = [] := by
  simpa [exchanges, List.filterMap_eq_nil_iff] using h

@[simp] theorem exchanges_ofProgress (first : Nat) (p : Progress) :
    exchanges (ofProgress first p) = p.exchanges := by
  have hrest : exchanges (p.delays.map (fun ms ↦ .effect (.armDelay ms)) ++
      (followups first p.followups).map .queued) = [] :=
    exchanges_eq_nil (by simp [or_imp, forall_and, Entry.exchange?])
  have hexchanged : ∀ xs : List Exchange, exchanges (xs.map .exchanged) = xs := fun xs ↦ by
    simp [exchanges, List.filterMap_map, Function.comp_def, Entry.exchange?]
  rw [ofProgress, List.append_assoc, exchanges_append, hexchanged, hrest, List.append_nil]

theorem not_milestone_ofProgress (first : Nat) (p : Progress) :
    ∀ e ∈ ofProgress first p, e.isMilestone = false := by
  simp +contextual [ofProgress, or_imp, forall_and, Entry.isMilestone]

theorem not_milestone_enter (old target : RadioState) (generation after : Nat) :
    ∀ e ∈ ofChange old target ++ ofPoll target generation after, e.isMilestone = false := by
  rw [List.forall_mem_append]
  constructor
  · unfold ofChange
    split
    · simp
    · cases target <;> simp [Entry.isMilestone]
  · unfold ofPoll
    split <;> simp [Entry.isMilestone]

theorem reports_ne_nil {j : Journal} {id : RequestId} {outcome : Outcome}
    (h : .effect (.complete id outcome) ∈ j) : j.reports ≠ [] := by
  refine List.ne_nil_of_mem (a := (id, outcome)) ?_
  simp only [reports, effects, List.mem_filterMap]
  exact ⟨.complete id outcome, ⟨_, h, rfl⟩, rfl⟩

@[simp] theorem reports_ofFinish (c : Controller) (p : Pending) (armed timedOut : Bool) :
    reports (ofFinish c p armed timedOut) = [] := by
  have hend := reports_ofEnd c p armed timedOut
  have hrest : reports (.resolved p timedOut (c.resolved p timedOut) ::
      ofReport p.request (Turn.resolution p timedOut).2) =
        p.request.toList.map (·, (Turn.resolution p timedOut).2) := reports_ofReport _ _
  rwa [ofEnd_eq, reports_append, hrest, List.append_left_eq_self] at hend

/-- What the end of a transition adds before it is on record is neither said to the chip nor a
milestone. -/
theorem quiet_ofFinish (c : Controller) (p : Pending) (armed timedOut : Bool) :
    ∀ e ∈ ofFinish c p armed timedOut, e.exchange? = none ∧ e.isMilestone = false := by
  intro e he
  have hreport : ∀ id outcome, e ≠ .effect (.complete id outcome) := by
    rintro id outcome rfl
    exact reports_ne_nil he (reports_ofFinish ..)
  have hplain : e.isPlain = true :=
    plain_ofEnd c p armed timedOut e (by rw [ofEnd_eq]; exact List.mem_append_left _ he)
  rcases mem_ofFinish he with hminor | ⟨-, rfl⟩
  · cases e with
    | effect f => cases f <;> first | exact ⟨rfl, rfl⟩ | exact absurd rfl (hreport _ _)
    | _ => simp_all [Entry.isMinor, Entry.isPlain]
  · exact ⟨rfl, rfl⟩

theorem changes_ofFinish (c : Controller) (p : Pending) (armed timedOut : Bool) :
    changes (ofFinish c p armed timedOut) =
      if (Turn.resolution p timedOut).1 = c.state then []
      else [(c.state, (Turn.resolution p timedOut).1)] := by
  have hend := changes_ofEnd c p armed timedOut
  rw [ofEnd_eq, changes_append] at hend
  have hrest : changes (.resolved p timedOut (c.resolved p timedOut) ::
      ofReport p.request (Turn.resolution p timedOut).2) = [] := changes_ofReport _ _
  rwa [hrest, List.append_nil] at hend

/-! ## Properties of all entries -/

section

variable {P : Journal → Entry → Prop} {j k : Journal}

theorem each_append_of_forall (hj : j.Each P) (hk : ∀ e ∈ k, ∀ earlier, P earlier e) :
    (j ++ k).Each P :=
  each_append hj fun _ e _ hsplit ↦ hk e (by simp [hsplit]) _

theorem each_snoc {e : Entry} (hj : j.Each P) (he : P j e) : (j ++ [e]).Each P := by
  refine each_append hj fun before e' after hsplit ↦ ?_
  obtain ⟨rfl, rfl⟩ := eq_of_singleton_split hsplit
  simpa using he

theorem each_report {client : Option RequestId} {outcome : Outcome} (hj : j.Each P)
    (hclient : ∀ id, client = some id → P j (.effect (.complete id outcome))) :
    (j ++ ofReport client outcome).Each P := by
  cases client with
  | none => simpa [ofReport] using hj
  | some id => exact each_snoc hj (hclient id rfl)

end

/-- The journal ends with a request that leaves the queue, and `c` is the controller without it. -/
def Dispatches (j : Journal) (r : Request) (c : Controller) : Prop :=
  ∃ earlier q passed rest d, j = earlier ++ [.dispatched q passed d] ∧ q.request = r ∧
    d.queue = passed ++ q :: rest ∧ c = { d with queue := passed ++ rest }

end Journal

/-! ## Accounts -/

structure Account where
  request : Request
  /-- The controller in which the transition begins. -/
  start : Controller
  destination : RadioState
  plan : Plan
  /-- What has happened since. -/
  during : Journal

namespace Account

/-- The transition of an account, as it begins. -/
def pending (x : Account) : Pending :=
  x.start.transition x.request x.destination x.plan.action

def entries (x : Account) : Journal := .begun x.pending x.start :: x.during

/-- The account with what has happened in addition. -/
def extend (x : Account) (k : Journal) : Account := { x with during := x.during ++ k }

/-- The request was accepted and has a plan, and no other transition has come between. -/
structure Valid (x : Account) : Prop where
  route : route x.start.state x.request.operation = .accept x.destination
  plan : Plan.build x.start.timing x.request.operation x.start.attributes x.start.scanMode =
    .ok (some x.plan)
  alone : ∀ e ∈ x.during, e.isMilestone = false

/-- The commands of the plan were taken and confirmed one by one up to `next`, which was taken and
waits. -/
structure Underway (x : Account) (action : Action) (rounds : List Round) (next : Command)
    (rest : List Command) : Prop where
  commands : x.plan.action.commands = rounds.map Round.command ++ next :: rest
  action : action =
    { x.plan.action with
      commands := rounds.map Round.completed ++ next :: rest
      index := rounds.length
      status := .running }
  confirmed : ∀ r ∈ rounds, r.Confirmed x.start.attributes.band
  exchanges : x.during.exchanges =
    Exchange.ofRounds rounds ++ [.issued rounds.length next true]

/-- All commands of the plan were taken and confirmed one by one, and the hook was applied. -/
structure Completed (x : Account) (action : Action) (a : Attributes) (rounds : List Round) :
    Prop where
  commands : x.plan.action.commands = rounds.map Round.command
  completed : action.commands = rounds.map Round.completed
  confirmed : ∀ r ∈ rounds, r.Confirmed x.start.attributes.band
  exchanges : x.during.exchanges = Exchange.ofRounds rounds
  hook : ∃ followups, x.plan.action.hook.apply .done action.commands x.start.attributes =
    .ok (a, followups)

/-- What the action did with which the transition ends. -/
structure Ends (x : Account) (progress : Progress) : Prop where
  done : progress.action.status = .done →
    ∃ rounds, x.Completed progress.action progress.attributes rounds
  undone : progress.action.status ≠ .done → progress.attributes = x.start.attributes

/-- The transition has ended as `p` and left the controller `d`. -/
structure Closed (x : Account) (p : Pending) (timedOut : Bool) (d : Controller) : Prop where
  same : p = { x.pending with action := p.action }
  operation : p.action.operation = x.request.operation
  state : d.state = (Turn.resolution p timedOut).1
  late : timedOut = true → p.action.status = .error
  done : p.action.status = .done → ∃ rounds, x.Completed p.action d.attributes rounds
  undone : p.action.status ≠ .done → d.attributes = x.start.attributes
  stays : p.action.status ≠ .done → d.state = x.start.state → d.scanMode = x.start.scanMode
  changes : x.during.changes =
    if d.state = x.start.state then [] else [(x.start.state, d.state)]

variable {x : Account} {action : Action} {a : Attributes} {rounds : List Round} {k : Journal}

theorem Valid.extend (h : x.Valid) (hk : ∀ e ∈ k, e.isMilestone = false) : (x.extend k).Valid := by
  refine ⟨h.route, h.plan, ?_⟩
  simp only [Account.extend, List.forall_mem_append]
  exact ⟨h.alone, hk⟩

theorem Completed.extend (h : x.Completed action a rounds) (hk : k.exchanges = []) :
    (x.extend k).Completed action a rounds := by
  refine ⟨h.commands, h.completed, h.confirmed, ?_, h.hook⟩
  rw [Account.extend, Journal.exchanges_append, hk, List.append_nil]
  exact h.exchanges

theorem Underway.extend {next : Command} {rest : List Command}
    (h : x.Underway action rounds next rest) (hk : k.exchanges = []) :
    (x.extend k).Underway action rounds next rest := by
  refine ⟨h.commands, h.action, h.confirmed, ?_⟩
  rw [Account.extend, Journal.exchanges_append, hk, List.append_nil]
  exact h.exchanges

@[simp] theorem extend_extend (x : Account) (k l : Journal) :
    (x.extend k).extend l = x.extend (k ++ l) := by
  simp [Account.extend]

end Account

/-! ## Transitions in flight -/

/-- No scan is on but in the scanning state. -/
def Controller.Scoped (c : Controller) : Prop := c.state ≠ .scanning → c.scanMode = none

/-- An action that does not end well leaves the attributes alone. -/
theorem Hook.attributes_of_undone {hook : Hook} {status : Status} {commands : List Command}
    {a b : Attributes} {followups : List Operation} (hstatus : status ≠ .done)
    (h : hook.apply status commands a = .ok (b, followups)) : b = a := by
  cases status with
  | done => contradiction
  | _ =>
      cases hook <;> cases h <;> rfl

namespace Turn

variable {accepts : Call → Bool} {e : Option Event} {t u : Turn} {p : Pending} {x : Account}
  {before k : Journal} {progress : Progress}

/-- The transition `p` has the account `x`, and the radio is as it was when it began. -/
structure Records (t : Turn) (p : Pending) (x : Account) (before : Journal) : Prop where
  journal : t.journal = before ++ x.entries
  valid : x.Valid
  dispatched : x.request.id ≠ none → before.Dispatches x.request x.start
  same : p = { x.pending with action := p.action }
  operation : p.action.operation = x.request.operation
  hook : p.action.hook = x.plan.action.hook
  state : t.radio.state = x.start.state
  scanMode : t.radio.scanMode = x.start.scanMode
  attributes : t.radio.attributes = x.start.attributes
  quiet : x.during.changes = []

/-- A transition in flight has an account on which it is under way. -/
def Aboard (t : Turn) : Prop :=
  ∀ p, t.radio.pending = some p → ∃ x before rounds next rest,
    t.Records p x before ∧ x.Underway p.action rounds next rest

theorem Records.extend {q : Pending} (h : t.Records p x before)
    (hjournal : u.journal = t.journal ++ k) (hk : ∀ e ∈ k, e.isMilestone = false)
    (hquiet : k.changes = []) (hsame : q = { p with action := q.action })
    (haction : q.action.operation = p.action.operation ∧ q.action.hook = p.action.hook)
    (hstate : u.radio.state = t.radio.state) (hscanMode : u.radio.scanMode = t.radio.scanMode)
    (hattributes : u.radio.attributes = t.radio.attributes) :
    u.Records q (x.extend k) before := by
  constructor
  · rw [hjournal, h.journal]
    simp [Account.entries, Account.extend, Account.pending]
  · exact h.valid.extend hk
  · exact h.dispatched
  · rw [hsame, h.same]
    rfl
  · rw [haction.1, h.operation]
    rfl
  · rw [haction.2, h.hook]
    rfl
  · rw [hstate, h.state]
    rfl
  · rw [hscanMode, h.scanMode]
    rfl
  · rw [hattributes, h.attributes]
    rfl
  · rw [Account.extend, Journal.changes_append, h.quiet, hquiet]
    rfl

/-- The account of a transition that has just begun. -/
def opened (u : Turn) (r : Request) (destination : RadioState) (plan : Plan) : Account where
  request := r
  start := u.radio
  destination := destination
  plan := plan
  during := plan.notices.map fun n ↦ .effect (.notify n)

theorem opened_exchanges (u : Turn) (r : Request) (destination : RadioState) (plan : Plan) :
    (u.opened r destination plan).during.exchanges = [] :=
  Journal.exchanges_eq_nil (by simp [opened, Entry.exchange?])

theorem Taken.dispatches {r : Request} (htaken : Taken e t r u) (hid : r.id ≠ none) :
    u.journal.Dispatches r u.radio := by
  cases htaken with
  | @queued _ q passed rest hpending hqueue =>
      exact ⟨t.journal, q, passed, rest, t.radio, take_journal .., rfl, hqueue, rfl⟩
  | poll => exact (hid rfl).elim

theorem Taken.records {r : Request} {destination : RadioState} {plan : Plan}
    (htaken : Taken e t r u) (hroute : route u.radio.state r.operation = .accept destination)
    (hplan : Plan.build u.radio.timing r.operation u.radio.attributes u.radio.scanMode =
      .ok (some plan)) :
    (u.launch (u.radio.transition r destination plan.action) plan.notices).Records
      (u.radio.transition r destination plan.action) (u.opened r destination plan) u.journal := by
  have hbuilt := Plan.built_of_build hplan
  refine ⟨launch_journal .., ⟨hroute, hplan, ?_⟩, htaken.dispatches, rfl, hbuilt.action.1, rfl, rfl,
    rfl, rfl, Journal.changes_notices hbuilt.isScanResult⟩
  simp [opened, Entry.isMilestone]

/-- A transition that stays in flight has done nothing but exchange with the chip. -/
theorem Records.hold (h : t.Records p x before)
    (hsame : progress.action.operation = p.action.operation ∧ progress.action.hook = p.action.hook)
    (hattributes : progress.attributes = t.radio.attributes) :
    (t.hold p progress).Records { p with action := progress.action }
      (x.extend (Journal.ofProgress t.radio.arrivals progress)) before :=
  h.extend (hold_journal ..) (Journal.not_milestone_ofProgress _ _)
    (Journal.changes_ofProgress _ _) rfl hsame (by simp) (by simp) (by simpa using hattributes)

end Turn

namespace Account

variable {x : Account} {accepts : Call → Bool} {action : Action} {rounds : List Round}
  {next : Command} {rest : List Command} {progress : Progress}

/-- The first command of a plan is under way once it was taken. -/
theorem underway_of_begins (hexchanges : x.during.exchanges = [])
    (h : x.plan.action.Begins accepts x.start.attributes progress)
    (hstatus : progress.action.status = .running) (first : Nat) :
    progress.attributes = x.start.attributes ∧
      ∃ next rest, (x.extend (Journal.ofProgress first progress)).Underway progress.action [] next
        rest := by
  cases h with
  | empty => simp at hstatus
  | refused => simp at hstatus
  | @issued next rest hcommands =>
      refine ⟨rfl, next, rest, ?_, ?_, by simp, ?_⟩
      · simpa [extend] using hcommands
      · simp [extend, hcommands]
      · simp [extend, hexchanges]

theorem Underway.eq_next (h : x.Underway action rounds next rest) {command : Command}
    (hcommand : action.commands[action.index]? = some command) : command = next := by
  rw [h.action] at hcommand
  simpa using hcommand.symm

theorem Underway.commands_set (h : x.Underway action rounds next rest) (completed : Command) :
    action.commands.set action.index completed =
      rounds.map Round.completed ++ completed :: rest := by
  rw [h.action]
  simp [List.set_append_right]

/-- The commands of an action under way are answered and sent one after the other. -/
theorem Underway.advance (h : x.Underway action rounds next rest) {callback : Callback}
    (hadvances : action.Advances accepts callback x.start.attributes progress)
    (hstatus : progress.action.status = .running) (first : Nat) :
    progress.attributes = x.start.attributes ∧
      ∃ r next' rest', (x.extend (Journal.ofProgress first progress)).Underway progress.action
        (rounds ++ [r]) next' rest' := by
  cases hadvances with
  | @stopped _ _ verdict _ _ _ _ hverdict =>
      have hterminal := Action.verdict_status_isTerminal hverdict
      have hrunning : verdict.status = .running := hstatus
      simp [hrunning, Status.isTerminal] at hterminal
  | finished => simp at hstatus
  | refused => simp at hstatus
  | @issued command completed next' hcommand hcomplete hnext haccepted =>
      cases h.eq_next hcommand
      obtain ⟨rest', rfl⟩ : ∃ rest', rest = next' :: rest' := by
        rw [h.action] at hnext
        cases rest with
        | nil => simp at hnext
        | cons second rest' => exact ⟨rest', by simpa using hnext⟩
      refine ⟨rfl, ⟨next, completed, callback⟩, next', rest', ?_, ?_, ?_, ?_⟩
      · simpa [Account.extend] using h.commands
      · rw [h.commands_set, h.action]
        simp [Account.extend]
      · rw [List.forall_mem_append, List.forall_mem_singleton]
        exact ⟨h.confirmed, Round.confirmed_of_complete hcomplete⟩
      · have hindex : action.index = rounds.length := by rw [h.action]
        simp [Account.extend, h.exchanges, hindex]

/-- An action that ends in its first call had nothing to send, or its first command was refused. -/
theorem ends_of_begins (hexchanges : x.during.exchanges = [])
    (h : x.plan.action.Begins accepts x.start.attributes progress)
    (hstatus : progress.action.status.isTerminal = true) (first : Nat) :
    (x.extend (Journal.ofProgress first progress)).Ends progress := by
  cases h with
  | @empty b followups hcommands hhook =>
      refine ⟨fun _ ↦ ⟨[], hcommands, hcommands, by simp, ?_, followups, ?_⟩,
        fun hne ↦ absurd rfl hne⟩
      · simp [Account.extend, hexchanges]
      · rwa [← hcommands] at hhook
  | refused => exact ⟨fun hdone ↦ by simp at hdone, fun _ ↦ rfl⟩
  | issued => simp [Status.isTerminal] at hstatus

/-- An action that a callback ends was confirmed to its last command, or has changed nothing. -/
theorem Underway.ends (h : x.Underway action rounds next rest)
    (hhook : action.hook = x.plan.action.hook) {callback : Callback}
    (hadvances : action.Advances accepts callback x.start.attributes progress)
    (hstatus : progress.action.status.isTerminal = true) (first : Nat) :
    (x.extend (Journal.ofProgress first progress)).Ends progress := by
  cases hadvances with
  | @stopped _ _ verdict _ _ _ _ hverdict happly =>
      have hundone := Action.verdict_status_ne_done verdict
      exact ⟨fun hdone ↦ absurd hdone hundone,
        fun _ ↦ Hook.attributes_of_undone hundone happly⟩
  | @finished command completed b followups hcommand hcomplete hlast happly =>
      cases h.eq_next hcommand
      have hindex : action.index = rounds.length := by rw [h.action]
      obtain rfl : rest = [] := by
        rw [h.action] at hlast
        simpa using hlast
      refine ⟨fun _ ↦ ⟨rounds ++ [⟨next, completed, callback⟩], ?_, ?_, ?_, ?_, followups, ?_⟩,
        fun hne ↦ absurd rfl hne⟩
      · simpa [Account.extend] using h.commands
      · rw [h.commands_set]
        simp
      · rw [List.forall_mem_append, List.forall_mem_singleton]
        exact ⟨h.confirmed, Round.confirmed_of_complete hcomplete⟩
      · simp [Account.extend, h.exchanges, hindex]
      · exact hhook ▸ happly
  | refused => exact ⟨fun hdone ↦ by simp at hdone, fun _ ↦ rfl⟩
  | issued =>
      have hrunning : action.status = .running := by rw [h.action]
      simp [hrunning, Status.isTerminal] at hstatus

/-- A transition that runs out of time has changed nothing. -/
theorem ends_of_expire {k : Journal} :
    (x.extend k).Ends
      { action := { action with status := .error }, attributes := x.start.attributes } :=
  ⟨fun hdone ↦ by simp at hdone, fun _ ↦ rfl⟩

end Account

namespace Turn

variable {accepts : Call → Bool} {e : Option Event} {t u : Turn} {p : Pending} {x : Account}
  {before : Journal} {progress : Progress}

/-- The end of a transition closes its account. -/
theorem Records.settle (h : t.Records p x before) (hscoped : t.radio.Scoped)
    (hsame : progress.action.operation = p.action.operation ∧ progress.action.hook = p.action.hook)
    (hends : (x.extend (Journal.ofProgress t.radio.arrivals progress)).Ends progress)
    {timedOut : Bool} (hlate : timedOut = true → progress.action.status = .error)
    (armed : Bool) :
    ∃ k : Journal, (∀ e ∈ k, e.isMilestone = false) ∧
      (x.extend k).Closed { p with action := progress.action } timedOut
        (t.settle p progress armed timedOut).radio ∧
      (t.settle p progress armed timedOut).journal = t.journal ++ k ++
        .resolved { p with action := progress.action } timedOut
          (t.settle p progress armed timedOut).radio ::
          Journal.ofReport p.request
            (resolution { p with action := progress.action } timedOut).2 := by
  let q : Pending := { p with action := progress.action }
  have hradio : (t.settle p progress armed timedOut).radio =
      (t.settling progress).resolved q timedOut := settle_radio ..
  have hfinish := Journal.quiet_ofFinish (t.settling progress) q armed timedOut
  have hstate : (t.settling progress).state = x.start.state := h.state
  refine ⟨Journal.ofProgress t.radio.arrivals progress ++
    Journal.ofFinish (t.settling progress) q armed timedOut, ?_, ?_, ?_⟩
  · rw [List.forall_mem_append]
    exact ⟨Journal.not_milestone_ofProgress _ _, fun e he ↦ (hfinish e he).2⟩
  · rw [hradio]
    constructor
    · rw [h.same]
      rfl
    · exact hsame.1.trans h.operation
    · rfl
    · exact hlate
    · intro hdone
      obtain ⟨rounds, hcompleted⟩ := hends.done hdone
      refine ⟨rounds, ?_⟩
      have hextended := hcompleted.extend
        (Journal.exchanges_eq_nil fun e he ↦ (hfinish e he).1)
      rwa [Account.extend_extend] at hextended
    · exact hends.undone
    · intro hundone hstays
      have hscan : (t.settling progress).scanAfter q = x.start.scanMode := by
        rw [Controller.scanAfter, if_neg hundone]
        exact h.scanMode
      -- Only in the scanning state is there a mode to keep; in any other there was none.
      change (if _ then _ else none) = _
      split
      next => exact hscan
      next hleft =>
        have hstart : x.start.state ≠ .scanning := fun hscanning ↦ hleft (hstays.trans hscanning)
        exact (hscoped (h.state.symm ▸ hstart)).symm.trans h.scanMode
    · rw [Account.extend, Journal.changes_append, Journal.changes_append, h.quiet,
        Journal.changes_ofProgress, Journal.changes_ofFinish, hstate]
      rfl
  · rw [settle_journal, Journal.ofEnd_eq, hradio]
    simp [q]

end Turn

namespace Journal

/-- A transition ends as its account tells. -/
def Accounted (earlier : Journal) : Entry → Prop
  | .resolved p timedOut d =>
      ∃ (x : Account) (before : Journal), earlier = before ++ x.entries ∧ x.Valid ∧
        (x.request.id ≠ none → before.Dispatches x.request x.start) ∧ x.Closed p timedOut d
  | _ => True

theorem accounted_of_not_milestone {e : Entry} (h : e.isMilestone = false) (earlier : Journal) :
    earlier.Accounted e := by
  cases e with
  | resolved => simp [Entry.isMilestone] at h
  | _ => trivial

theorem accounted_append {j k : Journal} (hj : j.Each Accounted)
    (hk : ∀ e ∈ k, e.isMilestone = false) : (j ++ k).Each Accounted :=
  each_append_of_forall hj fun e he ↦ accounted_of_not_milestone (hk e he)

end Journal

namespace Turn

/-- What a turn keeps about its transitions. -/
structure Accounts (t : Turn) : Prop where
  aboard : t.Aboard
  scope : t.radio.Scoped
  accounted : t.journal.Each Journal.Accounted

variable {accepts : Call → Bool} {e : Option Event} {t u : Turn} {p : Pending} {x : Account}
  {before : Journal} {progress : Progress}

theorem Records.accounted_settle (h : t.Records p x before) (hscoped : t.radio.Scoped)
    (haccounted : t.journal.Each Journal.Accounted)
    (hsame : progress.action.operation = p.action.operation ∧ progress.action.hook = p.action.hook)
    (hends : (x.extend (Journal.ofProgress t.radio.arrivals progress)).Ends progress)
    {timedOut : Bool} (hlate : timedOut = true → progress.action.status = .error)
    (armed : Bool) : (t.settle p progress armed timedOut).Accounts := by
  have hradio := settle_radio (t := t) p progress armed timedOut
  obtain ⟨k, hk, hclosed, hjournal⟩ := h.settle hscoped hsame hends hlate armed
  refine ⟨fun q hq ↦ by simp [Controller.resolved] at hq, fun hstate ↦ ?_, ?_⟩
  · rw [hradio] at hstate ⊢
    exact if_neg hstate
  · have hentries : t.journal ++ k = before ++ (x.extend k).entries := by
      rw [h.journal, List.append_assoc]
      rfl
    have hresolved : (t.journal ++ k ++ [Entry.resolved { p with action := progress.action }
        timedOut (t.settle p progress armed timedOut).radio]).Each Journal.Accounted :=
      Journal.each_snoc (Journal.accounted_append haccounted hk)
        ⟨x.extend k, before, hentries, h.valid.extend hk, h.dispatched, hclosed⟩
    rw [hjournal, List.append_cons]
    exact Journal.each_report hresolved fun _ _ ↦ trivial

theorem Records.accounted_hold (h : t.Records p x before) (hscoped : t.radio.Scoped)
    (haccounted : t.journal.Each Journal.Accounted)
    (hsame : progress.action.operation = p.action.operation ∧ progress.action.hook = p.action.hook)
    (hattributes : progress.attributes = t.radio.attributes) {rounds : List Round}
    {next : Command} {rest : List Command}
    (hunderway : (x.extend (Journal.ofProgress t.radio.arrivals progress)).Underway
      progress.action rounds next rest) : (t.hold p progress).Accounts := by
  refine ⟨fun q hq ↦ ?_, fun hleft ↦ ?_, ?_⟩
  · simp only [hold_radio, Option.some.injEq] at hq
    subst hq
    exact ⟨_, before, rounds, next, rest, h.hold hsame hattributes, hunderway⟩
  · rw [hold_radio] at hleft ⊢
    exact hscoped hleft
  · rw [hold_journal]
    exact Journal.accounted_append haccounted (Journal.not_milestone_ofProgress _ _)

theorem Taken.accounts {r : Request} (htaken : Taken e t r u) (h : t.Accounts) : u.Accounts := by
  cases htaken with
  | queued hpending =>
      refine ⟨fun p hp ↦ by simp [hpending] at hp, h.scope, ?_⟩
      rw [take_journal]
      exact Journal.each_snoc h.accounted trivial
  | poll => exact h

/-- While a transition is in flight, nothing that happens beside it touches its account. -/
theorem Accounts.extend {k : Journal} (h : t.Accounts) (hjournal : u.journal = t.journal ++ k)
    (hk : ∀ e ∈ k, e.isMilestone = false) (hquiet : k.changes = []) (hnone : k.exchanges = [])
    (hpending : u.radio.pending = t.radio.pending) (hstate : u.radio.state = t.radio.state)
    (hscanMode : u.radio.scanMode = t.radio.scanMode)
    (hattributes : u.radio.attributes = t.radio.attributes) : u.Accounts := by
  refine ⟨fun p hp ↦ ?_, fun hleft ↦ ?_, ?_⟩
  · obtain ⟨x, before, rounds, next, rest, hrecords, hunderway⟩ := h.aboard p (hpending ▸ hp)
    refine ⟨x.extend k, before, rounds, next, rest,
      hrecords.extend hjournal hk hquiet rfl ⟨rfl, rfl⟩ hstate hscanMode hattributes, ?_⟩
    exact hunderway.extend hnone
  · rw [hscanMode]
    exact h.scope (hstate ▸ hleft)
  · rw [hjournal]
    exact Journal.accounted_append h.accounted hk

theorem Taken.accounts_launch {r : Request} {destination : RadioState} {plan : Plan}
    (htaken : Taken e t r u) (h : t.Accounts) :
    (u.launch (u.radio.transition r destination plan.action) plan.notices).radio.Scoped ∧
      (u.launch (u.radio.transition r destination plan.action)
        plan.notices).journal.Each Journal.Accounted := by
  refine ⟨(htaken.accounts h).scope, ?_⟩
  rw [launch_journal, List.append_cons]
  exact Journal.accounted_append (Journal.each_snoc (htaken.accounts h).accounted trivial)
    (by simp [Entry.isMilestone])

/-- A transition that a callback lets go on is still on its account. -/
theorem Accounts.advance (h : t.Accounts) {callback : Callback}
    (hpending : t.radio.pending = some p)
    (hadvances : p.action.Advances accepts callback t.radio.attributes progress)
    (hstatus : progress.action.status = .running) :
    progress.attributes = t.radio.attributes ∧ ∃ x before rounds next rest,
      t.Records p x before ∧ (x.extend (Journal.ofProgress t.radio.arrivals progress)).Underway
        progress.action rounds next rest := by
  obtain ⟨x, before, rounds, next, rest, hrecords, hunderway⟩ := h.aboard p hpending
  rw [hrecords.attributes] at hadvances ⊢
  obtain ⟨hattributes, r, next', rest', hunderway'⟩ :=
    hunderway.advance hadvances hstatus t.radio.arrivals
  exact ⟨hattributes, x, before, _, next', rest', hrecords, hunderway'⟩

theorem Accounts.finish (h : t.Accounts) {callback : Callback}
    (hpending : t.radio.pending = some p)
    (hadvances : p.action.Advances accepts callback t.radio.attributes progress)
    (hstatus : progress.action.status.isTerminal = true) :
    ∃ x before, t.Records p x before ∧
      (x.extend (Journal.ofProgress t.radio.arrivals progress)).Ends progress := by
  obtain ⟨x, before, rounds, next, rest, hrecords, hunderway⟩ := h.aboard p hpending
  rw [hrecords.attributes] at hadvances
  exact ⟨x, before, hrecords, hunderway.ends hrecords.hook hadvances hstatus _⟩

theorem Accounts.expire (h : t.Accounts) (hpending : t.radio.pending = some p) (k : Journal) :
    ∃ x before, t.Records p x before ∧ (x.extend k).Ends
      { action := { p.action with status := .error }, attributes := t.radio.attributes } := by
  obtain ⟨x, before, rounds, next, rest, hrecords, -⟩ := h.aboard p hpending
  refine ⟨x, before, hrecords, ?_⟩
  rw [hrecords.attributes]
  exact Account.ends_of_expire

theorem Move.accounts (hmove : Move accepts e t u) (h : t.Accounts) : u.Accounts := by
  cases hmove with
  | ready hinvalid =>
      -- Nothing is accepted in the invalid state, so that nothing can be in flight.
      have hpending : t.radio.pending = none := by
        refine Option.eq_none_iff_forall_ne_some.mpr fun p hp ↦ ?_
        obtain ⟨x, before, rounds, next, rest, hrecords, -⟩ := h.aboard p hp
        have hroute := hrecords.valid.route
        rw [← hrecords.state, hinvalid] at hroute
        simp [route] at hroute
      refine ⟨fun p hp ↦ by simp [hpending] at hp, fun _ ↦ by simp, ?_⟩
      rw [enter_journal, List.append_assoc]
      exact Journal.accounted_append h.accounted (Journal.not_milestone_enter _ _ _ _)
  | arrive r =>
      exact h.extend (enqueue_journal ..) (by simp [Entry.isMilestone]) rfl rfl rfl rfl rfl rfl
  | decline htaken =>
      have hv := htaken.accounts h
      refine ⟨fun p hp ↦ by simp [htaken.pending] at hp, by simpa using hv.scope, ?_⟩
      rw [report_journal]
      exact Journal.each_report hv.accounted fun _ _ ↦ trivial
  | @begin _ _ v r destination plan progress htaken hroute hplan hbegins hstatus =>
      obtain ⟨hscoped, haccounted⟩ := htaken.accounts_launch h
      have hrecords := htaken.records hroute hplan
      obtain ⟨hattributes, next, rest, hunderway⟩ := Account.underway_of_begins
        (opened_exchanges v r destination plan) hbegins hstatus v.radio.arrivals
      have hhold := hrecords.accounted_hold hscoped haccounted hbegins.same hattributes hunderway
      exact hhold.extend (emit_journal ..) (by simp [Entry.isMilestone]) rfl rfl rfl rfl rfl rfl
  | @flash _ _ v r destination plan progress htaken hroute hplan hbegins hstatus =>
      obtain ⟨hscoped, haccounted⟩ := htaken.accounts_launch h
      have hrecords := htaken.records hroute hplan
      exact hrecords.accounted_settle hscoped haccounted hbegins.same
        (Account.ends_of_begins (opened_exchanges ..) hbegins hstatus _) (by simp) false
  | advance hpending hadvances hstatus =>
      obtain ⟨hattributes, x, before, rounds, next, rest, hrecords, hunderway⟩ :=
        h.advance hpending hadvances hstatus
      exact hrecords.accounted_hold h.scope h.accounted hadvances.same hattributes hunderway
  | finish hpending hadvances hstatus =>
      obtain ⟨x, before, hrecords, hends⟩ := h.finish hpending hadvances hstatus
      exact hrecords.accounted_settle h.scope h.accounted hadvances.same hends (by simp) true
  | expire hpending =>
      obtain ⟨x, before, hrecords, hends⟩ := h.expire hpending _
      exact hrecords.accounted_settle h.scope h.accounted ⟨rfl, rfl⟩ hends (fun _ ↦ rfl) true

end Turn

namespace Controller

variable {timing : Timing} {script : List (Event × (Call → Bool))} {t : Turn}

theorem initial_accounts (timing : Timing) : Turn.Accounts { radio := initial timing } := by
  refine ⟨fun p hp ↦ by simp [initial] at hp, fun _ ↦ rfl, fun before entry after hsplit ↦ ?_⟩
  simp at hsplit

theorem run_accounts (h : (initial timing).run script = .ok t) : t.Accounts :=
  (run_induction (initial_accounts timing) (fun _ _ _ _ _ ht _ _ hmove ↦ hmove.accounts ht)
    (fun _ _ _ ht _ hmove ↦ hmove.accounts ht) h).1

end Controller

end FmTuner
