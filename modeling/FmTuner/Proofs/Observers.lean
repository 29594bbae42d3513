import FmTuner.Proofs.AttributeLog

/-!
# What observers see

An observer hears the notifications and nothing else. What it makes of them, `Observer.of`, stays in
step with the radio through every move: the controller compares the readings at the end of a
transition with those from its beginning, and nothing touches the attributes in between.
-/

namespace FmTuner

structure Observer where
  state : RadioState := .invalid
  changes : Nat := 0
  stereo : Bool := false
  signal : Option UInt8 := none
  deriving DecidableEq, Repr

namespace Observer

def hear (o : Observer) : Notification → Observer
  | .stateChanged _ new => { o with state := new, changes := o.changes + 1 }
  | .stereoChanged on => { o with stereo := on }
  | .signalStrengthChanged level => { o with signal := some level }
  | _ => o

/-- What an observer knows that has heard these notifications. -/
def of (heard : List Notification) : Observer := heard.foldl hear {}

@[simp] theorem of_append (first second : List Notification) :
    of (first ++ second) = second.foldl hear (of first) :=
  List.foldl_append ..

theorem foldl_hear_eq {ns : List Notification} (h : ∀ n ∈ ns, ∀ o : Observer, o.hear n = o)
    {o : Observer} : ns.foldl hear o = o := by
  induction ns with
  | nil => rfl
  | cons n rest ih =>
      rw [List.forall_mem_cons] at h
      rw [List.foldl_cons, h.1, ih h.2]

end Observer

/-- What is announced right after the change into a state. -/
def RadioState.sequel : RadioState → List Notification
  | .idle => [.forcedReset forcedResetNormal]
  | .error => [.error]
  | _ => []

namespace Notification

/-- A notification in its place. A change of state begins where the last one has led, and what is
announced with the new state comes right after it and nowhere else. -/
def Placed (before after : List Notification) : Notification → Prop
  | .stateChanged old new =>
      old = (Observer.of before).state ∧ new ≠ old ∧ new.sequel <+: after
  | .forcedReset reason =>
      reason = forcedResetNormal ∧ ∃ front old, before = front ++ [.stateChanged old .idle]
  | .error => ∃ front old, before = front ++ [.stateChanged old .error]
  | _ => True

def isAboutState : Notification → Bool
  | .stateChanged .. | .forcedReset _ | .error => true
  | _ => false

def Orderly (ns : List Notification) : Prop :=
  ∀ before n after, ns = before ++ n :: after → n.Placed before after

variable {ns more before after : List Notification} {n : Notification}

theorem placed_of_not_aboutState (h : n.isAboutState = false) : n.Placed before after := by
  cases n <;> simp [isAboutState] at h <;> trivial

theorem Placed.append (h : n.Placed before after) (more : List Notification) :
    n.Placed before (after ++ more) := by
  cases n with
  | stateChanged old new => exact ⟨h.1, h.2.1, h.2.2.trans (List.prefix_append _ _)⟩
  | _ => exact h

theorem isAboutState_of_isScanResult (h : n.isScanResult = true) : n.isAboutState = false := by
  cases n <;> first | rfl | simp [isScanResult] at h

theorem hear_of_isScanResult (h : n.isScanResult = true) (o : Observer) : o.hear n = o := by
  cases n <;> first | rfl | simp [isScanResult] at h

end Notification

theorem split_append {α : Type} {xs ys before after : List α} {x : α}
    (h : xs ++ ys = before ++ x :: after) :
    (∃ between, xs = before ++ x :: between ∧ after = between ++ ys) ∨
      ∃ between, before = xs ++ between ∧ ys = between ++ x :: after := by
  rcases List.append_eq_append_iff.mp h with ⟨zs, rfl, hzs⟩ | ⟨zs, rfl, hzs⟩
  · exact .inr ⟨zs, rfl, hzs⟩
  · cases zs with
    | nil => exact .inr ⟨[], by simp, by simpa using hzs.symm⟩
    | cons z zs =>
        cases hzs
        exact .inl ⟨zs, rfl, rfl⟩

namespace Notification.Orderly

variable {ns more : List Notification}

theorem append (h : Orderly ns)
    (hmore : ∀ before n after, more = before ++ n :: after → n.Placed (ns ++ before) after) :
    Orderly (ns ++ more) := by
  intro before n after hsplit
  rcases split_append hsplit with ⟨between, hns, rfl⟩ | ⟨between, rfl, hbetween⟩
  · exact (h before n between hns).append more
  · exact hmore between n after hbetween

theorem append_of_forall (h : Orderly ns) (hmore : ∀ n ∈ more, n.isAboutState = false) :
    Orderly (ns ++ more) := by
  refine h.append fun before n after hsplit ↦ placed_of_not_aboutState (hmore n ?_)
  simp [hsplit]

theorem change (h : Orderly ns) {new : RadioState} (hnew : new ≠ (Observer.of ns).state) :
    Orderly (ns ++ .stateChanged (Observer.of ns).state new :: new.sequel) := by
  refine h.append fun before n after hsplit ↦ ?_
  cases before with
  | nil =>
      cases hsplit
      rw [List.append_nil]
      exact ⟨rfl, hnew, List.prefix_rfl⟩
  | cons first front =>
      obtain ⟨rfl, hsequel⟩ := List.cons.inj hsplit
      cases new with
      | idle =>
          obtain ⟨rfl, rfl⟩ := eq_of_singleton_split hsequel
          exact ⟨rfl, ns, _, rfl⟩
      | error =>
          obtain ⟨rfl, rfl⟩ := eq_of_singleton_split hsequel
          exact ⟨ns, _, rfl⟩
      | _ => simp [RadioState.sequel] at hsequel

end Notification.Orderly

/-! ## Notifications of the parts of a move -/

def Entry.isReading : Entry → Bool
  | .effect (.notify (.signalStrengthChanged _)) | .effect (.notify (.stereoChanged _)) => true
  | _ => false

/-- Whether an entry is the end of a transition or announces that the radio has started. -/
def Entry.isHerald : Entry → Bool
  | .resolved .. | .effect (.notify .started) => true
  | _ => false

/-- Entries that neither end a transition nor notify of anything but the results of a scan. -/
def Entry.isReserved : Entry → Bool
  | .resolved .. => false
  | .effect (.notify n) => n.isScanResult
  | _ => true

theorem Entry.not_herald_of_isReserved {e : Entry} (h : e.isReserved = true) :
    e.isHerald = false := by
  cases e with
  | resolved => simp [isReserved] at h
  | effect f =>
      cases f with
      | notify n => cases n <;> first | rfl | simp [isReserved, Notification.isScanResult] at h
      | _ => rfl
  | _ => rfl

def Pending.Starts (p : Pending) : Prop :=
  p.action.status = .done ∧ p.action.operation.isStart = true

instance (p : Pending) : Decidable p.Starts :=
  inferInstanceAs (Decidable (_ ∧ _))

namespace Journal

variable {j k : Journal}

theorem mem_notifications {n : Notification} :
    n ∈ j.notifications ↔ .effect (.notify n) ∈ j := by
  simp only [notifications, effects, List.mem_filterMap]
  constructor
  · rintro ⟨f, ⟨e, he, hf⟩, hn⟩
    cases e <;> cases hf
    cases f <;> cases hn
    exact he
  · intro h
    exact ⟨.notify n, ⟨_, h, rfl⟩, rfl⟩

theorem isScanResult_of_isReserved (h : ∀ e ∈ k, e.isReserved = true) :
    ∀ n ∈ k.notifications, n.isScanResult = true :=
  fun _ hn ↦ h _ (mem_notifications.mp hn)

theorem notifications_ofChange (old new : RadioState) :
    (ofChange old new).notifications =
      if new = old then [] else .stateChanged old new :: new.sequel := by
  unfold ofChange
  split
  · rfl
  · cases new <;> rfl

theorem ofStart_eq (p : Pending) :
    ofStart p = if p.Starts then [.effect (.notify .started)] else [] := rfl

theorem reading_ofReadings (p : Pending) (a : Attributes) :
    ∀ e ∈ ofReadings p a, e.isReading = true := by
  rw [ofReadings, List.forall_mem_append]
  constructor
  · cases a.signalStrength with
    | none => simp
    | some level => by_cases h : p.signalBefore = some level <;> simp [h, Entry.isReading]
  · split <;> simp [Entry.isReading]

/-- An observer that has known the readings from before a transition knows those from after it, once
it has heard what is said of them. -/
theorem hear_ofReadings (p : Pending) (a : Attributes) {o : Observer}
    (hsignal : ∀ level, p.signalBefore = some level → o.signal = some level)
    (hstereo : o.stereo = p.stereoBefore) :
    let later := (ofReadings p a).notifications.foldl Observer.hear o
    later.state = o.state ∧ later.changes = o.changes ∧ later.stereo = a.stereo ∧
      ∀ level, a.signalStrength = some level → later.signal = some level := by
  have hstereoSame : p.stereoBefore = a.stereo → o.stereo = a.stereo := hstereo.trans
  cases hlevel : a.signalStrength with
  | none =>
      by_cases hsame : p.stereoBefore = a.stereo <;>
        simp [ofReadings, notifications, effects, Entry.effect?, Observer.hear, hlevel, hsame,
          hstereo]
  | some level =>
      by_cases hbefore : p.signalBefore = some level <;>
        by_cases hsame : p.stereoBefore = a.stereo <;>
          simp [ofReadings, notifications, effects, Entry.effect?, Observer.hear, hlevel, hbefore,
            hsame, hstereo, hsignal]

theorem reserved_ofProgress (first : Nat) (p : Progress) :
    ∀ e ∈ ofProgress first p, e.isReserved = true := by
  simp +contextual [ofProgress, or_imp, forall_and, Entry.isReserved]

theorem reserved_ofPoll (target : RadioState) (generation after : Nat) :
    ∀ e ∈ ofPoll target generation after, e.isReserved = true := by
  unfold ofPoll
  split <;> simp [Entry.isReserved]

theorem reserved_ofReport (id : Option RequestId) (outcome : Outcome) :
    ∀ e ∈ ofReport id outcome, e.isReserved = true := by
  cases id <;> simp [ofReport, Entry.isReserved]

/-! ## Starts -/

/-- The end of a start that was done comes after the announcement of it, with nothing but readings
in between. -/
def Announced (earlier : Journal) : Entry → Prop
  | .resolved p _ _ =>
      p.Starts → ∃ front readings, earlier = front ++ .effect (.notify .started) :: readings ∧
        ∀ e ∈ readings, e.isReading = true
  | _ => True

/-- That the radio has started is announced for every start that was done, and for nothing else. -/
structure HeraldsStarts (j : Journal) : Prop where
  announced : j.Each Announced
  ended : ∀ before after, j = before ++ .effect (.notify .started) :: after →
    ∃ readings p timedOut d later, after = readings ++ .resolved p timedOut d :: later ∧
      p.Starts ∧ ∀ e ∈ readings, e.isReading = true

theorem announced_of_not_resolved {e : Entry} (h : ∀ p timedOut d, e ≠ .resolved p timedOut d)
    (earlier : Journal) : earlier.Announced e := by
  cases e with
  | resolved p timedOut d => exact (h p timedOut d rfl).elim
  | _ => trivial

theorem HeraldsStarts.append (h : j.HeraldsStarts) (hk : ∀ e ∈ k, e.isHerald = false) :
    (j ++ k).HeraldsStarts := by
  constructor
  · refine each_append_of_forall h.announced fun e he ↦ announced_of_not_resolved ?_
    rintro p timedOut d rfl
    simpa [Entry.isHerald] using hk _ he
  · intro before after hsplit
    obtain ⟨between, hj, rfl⟩ := split_of_not_mem hsplit fun hmem ↦ by
      simpa [Entry.isHerald] using hk _ hmem
    obtain ⟨readings, p, timedOut, d, later, rfl, hstarts, hreadings⟩ := h.ended before between hj
    exact ⟨readings, p, timedOut, d, later ++ k, by simp, hstarts, hreadings⟩

theorem HeraldsStarts.close (h : j.HeraldsStarts) (p : Pending) (a : Attributes) (timedOut : Bool)
    (d : Controller) :
    (j ++ ofStart p ++ ofReadings p a ++ [Entry.resolved p timedOut d]).HeraldsStarts := by
  have hreadings := reading_ofReadings p a
  constructor
  · refine each_snoc (each_append_of_forall (each_append_of_forall h.announced ?_) ?_) ?_
    · intro e he
      refine announced_of_not_resolved fun q late c heq ↦ ?_
      simp [ofStart_eq, heq] at he
    · intro e he
      refine announced_of_not_resolved fun q late c heq ↦ ?_
      simpa [Entry.isReading, heq] using hreadings e he
    · exact fun hstarts ↦ ⟨j, ofReadings p a, by simp [ofStart_eq, hstarts], hreadings⟩
  · -- What announces a start is announced earlier, or right here if `p` is a start.
    intro before after hsplit
    rw [List.append_assoc, List.append_assoc] at hsplit
    rcases split_append hsplit with ⟨between, hj, rfl⟩ | ⟨between, -, hend⟩
    · obtain ⟨readings, q, late, c, later, rfl, hq, hall⟩ := h.ended before between hj
      exact ⟨readings, q, late, c, _, List.append_assoc .., hq, hall⟩
    · have hnone :
          .effect (.notify .started) ∉ ofReadings p a ++ [Entry.resolved p timedOut d] := by
        rw [List.mem_append, List.mem_singleton]
        rintro (hmem | hmem)
        · simpa [Entry.isReading] using hreadings _ hmem
        · cases hmem
      obtain ⟨rest, hstart, rfl⟩ := split_of_not_mem hend hnone
      rw [ofStart_eq] at hstart
      split at hstart
      next hstarts =>
        cases between with
        | nil =>
            cases hstart
            exact ⟨ofReadings p a, p, timedOut, d, [], rfl, hstarts, hreadings⟩
        | cons => simp at hstart
      next => simp at hstart

/-! ## What a journal tells -/

/-- An observer of the journal knows what the radio is like. -/
structure Tells (j : Journal) (c : Controller) : Prop where
  state : (Observer.of j.notifications).state = c.state
  changes : (Observer.of j.notifications).changes = c.changes
  stereo : (Observer.of j.notifications).stereo = c.attributes.stereo
  signal : ∀ level, c.attributes.signalStrength = some level →
    (Observer.of j.notifications).signal = some level
  orderly : Notification.Orderly j.notifications
  heralds : j.HeraldsStarts

variable {c d : Controller}

theorem Tells.extend (h : j.Tells c) (hk : ∀ e ∈ k, e.isReserved = true)
    (hstate : d.state = c.state) (hchanges : d.changes = c.changes)
    (hattributes : d.attributes = c.attributes) : (j ++ k).Tells d := by
  have hresults := isScanResult_of_isReserved hk
  have hobserver : Observer.of (j ++ k).notifications = Observer.of j.notifications := by
    rw [notifications_append, Observer.of_append]
    exact Observer.foldl_hear_eq fun n hn ↦ Notification.hear_of_isScanResult (hresults n hn)
  constructor
  · rw [hobserver, h.state, hstate]
  · rw [hobserver, h.changes, hchanges]
  · rw [hobserver, h.stereo, hattributes]
  · rw [hobserver, hattributes]
    exact h.signal
  · rw [notifications_append]
    exact h.orderly.append_of_forall fun n hn ↦
      Notification.isAboutState_of_isScanResult (hresults n hn)
  · exact h.heralds.append fun e he ↦ Entry.not_herald_of_isReserved (hk e he)

theorem Tells.change (h : j.Tells c) (new : RadioState) :
    (j ++ ofChange c.state new).Tells
      { c with
        state := new
        changes := if new = c.state then c.changes else c.changes + 1 } := by
  have hherald : ∀ e ∈ ofChange c.state new, e.isHerald = false := by
    unfold ofChange
    split
    · simp
    · cases new <;> simp [Entry.isHerald]
  by_cases hnew : new = c.state
  · -- To stay in the state is no change, and nothing is said of it.
    subst hnew
    simpa [ofChange] using h
  · have hsequel : ∀ o : Observer, new.sequel.foldl Observer.hear o = o := by
      intro o
      cases new <;> rfl
    have hnotifications : (j ++ ofChange c.state new).notifications =
        j.notifications ++ .stateChanged c.state new :: new.sequel := by
      rw [notifications_append, notifications_ofChange, if_neg hnew]
    have hobserver : Observer.of (j ++ ofChange c.state new).notifications =
        { Observer.of j.notifications with state := new, changes := c.changes + 1 } := by
      rw [hnotifications, Observer.of_append, List.foldl_cons, hsequel, Observer.hear, h.changes]
    constructor
    · rw [hobserver]
    · rw [hobserver, if_neg hnew]
    · rw [hobserver]
      exact h.stereo
    · rw [hobserver]
      exact h.signal
    · rw [hnotifications, ← h.state]
      exact h.orderly.change (h.state.symm ▸ hnew)
    · exact h.heralds.append hherald

theorem Tells.close (h : j.Tells c) (p : Pending)
    (hsignal : p.signalBefore = c.attributes.signalStrength)
    (hstereo : p.stereoBefore = c.attributes.stereo) (a : Attributes) (timedOut : Bool)
    (d : Controller) :
    (j ++ ofStart p ++ ofReadings p a ++ [Entry.resolved p timedOut d]).Tells
      { c with attributes := a } := by
  have hstart : ∀ n ∈ (ofStart p).notifications, n = .started := by
    unfold ofStart
    split <;> simp [notifications, effects, Entry.effect?]
  have hheard : (ofStart p).notifications.foldl Observer.hear (Observer.of j.notifications) =
      Observer.of j.notifications :=
    Observer.foldl_hear_eq fun n hn o ↦ by
      rw [hstart n hn]
      rfl
  have hnotifications :
      (j ++ ofStart p ++ ofReadings p a ++ [Entry.resolved p timedOut d]).notifications =
        j.notifications ++ (ofStart p).notifications ++ (ofReadings p a).notifications := by
    have hresolved : notifications [.resolved p timedOut d] = [] := rfl
    rw [notifications_append, hresolved, notifications_append, notifications_append,
      List.append_nil]
  have hreadings := hear_ofReadings p a (o := Observer.of j.notifications)
    (hsignal ▸ h.signal) (h.stereo.trans hstereo.symm)
  have hobserver : Observer.of
      (j ++ ofStart p ++ ofReadings p a ++ [Entry.resolved p timedOut d]).notifications =
        (ofReadings p a).notifications.foldl Observer.hear (Observer.of j.notifications) := by
    rw [hnotifications, Observer.of_append, Observer.of_append, hheard]
  constructor
  · rw [hobserver, hreadings.1, h.state]
  · rw [hobserver, hreadings.2.1, h.changes]
  · rw [hobserver, hreadings.2.2.1]
  · rw [hobserver]
    exact hreadings.2.2.2
  · rw [hnotifications]
    refine (h.orderly.append_of_forall fun n hn ↦ ?_).append_of_forall fun n hn ↦ ?_
    · rw [hstart n hn]
      rfl
    · have hreading := reading_ofReadings p a _ (mem_notifications.mp hn)
      cases n <;> first | rfl | simp [Entry.isReading] at hreading
  · exact h.heralds.close p a timedOut d

end Journal

/-! ## Moves -/

namespace Turn

variable {accepts : Call → Bool} {e : Option Event} {t u : Turn} {p : Pending} {x : Account}
  {before : Journal} {progress : Progress}

theorem Records.readings (h : t.Records p x before) :
    p.signalBefore = t.radio.attributes.signalStrength ∧
      p.stereoBefore = t.radio.attributes.stereo := by
  -- Nothing has touched the attributes since the transition took note of the readings.
  rw [h.same, h.attributes]
  exact ⟨rfl, rfl⟩

theorem Taken.tells {r : Request} (htaken : Taken e t r u) (h : t.journal.Tells t.radio) :
    u.journal.Tells u.radio := by
  cases htaken with
  | queued =>
      rw [take_journal]
      exact h.extend (by simp [Entry.isReserved]) rfl rfl rfl
  | poll => exact h

theorem tells_launch (h : t.journal.Tells t.radio) (p : Pending) {notices : List Notification}
    (hnotices : ∀ n ∈ notices, n.isScanResult = true) :
    (t.launch p notices).journal.Tells (t.launch p notices).radio := by
  rw [launch_journal]
  refine h.extend ?_ rfl rfl rfl
  simp only [List.forall_mem_cons, List.forall_mem_map]
  exact ⟨rfl, hnotices⟩

theorem tells_hold (h : t.journal.Tells t.radio) (p : Pending)
    (hattributes : progress.attributes = t.radio.attributes) :
    (t.hold p progress).journal.Tells (t.hold p progress).radio := by
  rw [hold_journal]
  exact h.extend (Journal.reserved_ofProgress _ _) (by simp) (by simp) (by simpa using hattributes)

theorem tells_settle (h : t.journal.Tells t.radio) (hrecords : t.Records p x before)
    (armed timedOut : Bool) :
    (t.settle p progress armed timedOut).journal.Tells
      (t.settle p progress armed timedOut).radio := by
  -- The parts of the end come in the order in which they are heard.
  let q : Pending := { p with action := progress.action }
  have hdisarm : ∀ e ∈ (if armed then [Entry.effect .disarmTimeout] else []),
      e.isReserved = true := by
    cases armed <;> simp [Entry.isReserved]
  obtain ⟨hsignal, hstereo⟩ := hrecords.readings
  have hprogress := (h.extend (Journal.reserved_ofProgress t.radio.arrivals progress) rfl rfl
    rfl).extend hdisarm rfl rfl rfl
  have hchanged := (hprogress.change (resolution q timedOut).1).extend
    (Journal.reserved_ofPoll (resolution q timedOut).1 t.radio.generation
      t.radio.timing.pollInterval) rfl rfl rfl
  have hclosed := hchanged.close q hsignal hstereo progress.attributes timedOut
    ((t.settling progress).resolved q timedOut)
  have hreported := hclosed.extend (d := (t.settle p progress armed timedOut).radio)
    (Journal.reserved_ofReport p.request (resolution q timedOut).2)
    (by simp [Controller.resolved, q]) (by simp [Controller.resolved, q])
    (by simp [Controller.resolved])
  rw [settle_journal, Journal.ofEnd]
  simpa [q, settling, List.append_assoc] using hreported

theorem Move.tells (hmove : Move accepts e t u) (haccounts : t.Accounts)
    (h : t.journal.Tells t.radio) : u.journal.Tells u.radio := by
  cases hmove with
  | ready =>
      rw [enter_journal]
      exact (h.change .idle).extend (Journal.reserved_ofPoll _ _ _) (by simp) (by simp) (by simp)
  | arrive r =>
      rw [enqueue_journal]
      exact h.extend (by simp [Entry.isReserved]) rfl rfl rfl
  | decline htaken =>
      rw [report_journal]
      exact (htaken.tells h).extend (Journal.reserved_ofReport _ _) (by simp) (by simp) (by simp)
  | @begin _ _ v r destination plan progress htaken hroute hplan hbegins hstatus =>
      obtain ⟨hattributes, -⟩ := Account.underway_of_begins
        (opened_exchanges v r destination plan) hbegins hstatus v.radio.arrivals
      rw [emit_journal]
      refine (tells_hold (tells_launch (htaken.tells h) _ ?_) _ hattributes).extend ?_ rfl rfl rfl
      · exact (Plan.built_of_build hplan).isScanResult
      · simp [Entry.isReserved]
  | flash htaken hroute hplan hbegins hstatus =>
      exact tells_settle (tells_launch (htaken.tells h) _ (Plan.built_of_build hplan).isScanResult)
        (htaken.records hroute hplan) false false
  | advance hpending hadvances hstatus =>
      exact tells_hold h _ (haccounts.advance hpending hadvances hstatus).1
  | finish hpending hadvances hstatus =>
      obtain ⟨x, before, hrecords, -⟩ := haccounts.finish hpending hadvances hstatus
      exact tells_settle h hrecords true false
  | expire hpending =>
      obtain ⟨x, before, hrecords, -⟩ := haccounts.expire hpending []
      exact tells_settle h hrecords true true

end Turn

namespace Controller

variable {timing : Timing} {script : List (Event × (Call → Bool))} {t : Turn}

theorem initial_tells (timing : Timing) : Journal.Tells [] (initial timing) := by
  refine ⟨rfl, rfl, rfl, ?_, ?_, ?_, ?_⟩
  · intro level hlevel
    cases hlevel
  · intro before n after hsplit
    simp [Journal.notifications] at hsplit
  · intro before e after hsplit
    simp at hsplit
  · intro before after hsplit
    simp at hsplit

theorem run_tells (h : (initial timing).run script = .ok t) : t.journal.Tells t.radio := by
  have hrun := run_induction (P := fun t ↦ t.Accounts ∧ t.journal.Tells t.radio)
    ⟨initial_accounts timing, initial_tells timing⟩
    (fun _ _ _ _ _ ht _ _ hmove ↦ ⟨hmove.accounts ht.1, hmove.tells ht.1 ht.2⟩)
    (fun _ _ _ ht _ hmove ↦ ⟨hmove.accounts ht.1, hmove.tells ht.1 ht.2⟩) h
  exact hrun.1.2

/-- Whoever has heard all notifications knows the state of the radio, how often it has changed, the
stereo flag, and the signal as long as there is one. Each change of state begins where the last one
has led, and leads elsewhere; a forced reset is announced right after every change into the idle
state and an error right after every change into the error state, and never else. That the radio has
started is announced with every start that was done, and never else. -/
theorem notifications_tell_radio (h : (initial timing).run script = .ok t) :
    (Observer.of t.journal.notifications).state = t.radio.state ∧
    (Observer.of t.journal.notifications).changes = t.radio.changes ∧
    (Observer.of t.journal.notifications).stereo = t.radio.attributes.stereo ∧
    (∀ level, t.radio.attributes.signalStrength = some level →
      (Observer.of t.journal.notifications).signal = some level) ∧
    (∀ before n after, t.journal.notifications = before ++ n :: after → n.Placed before after) ∧
    t.journal.HeraldsStarts := by
  have htells := run_tells h
  exact ⟨htells.state, htells.changes, htells.stereo, htells.signal, htells.orderly,
    htells.heralds⟩

/-- The changes of state, the readings and the start of a search that finds a channel, as they are
told. -/
theorem found_channel_is_told :
    ∃ t, (initial {}).run (searchBegun ++
        [(.pollDue 2, fun _ ↦ true), (.callback (.vendor 0xfc15 [0, 18, 1, 65, 0]), fun _ ↦ true),
          (.callback (.vendor 0xfc15 [0, 10, 1, 192, 93]), fun _ ↦ true),
          (.callback (.vendor 0xfc15 [0, 15, 1, 70]), fun _ ↦ true),
          (.callback (.vendor 0xfc15 [0, 10, 0]), fun _ ↦ true),
          (.callback (.vendor 0xfc15 [0, 9, 0]), fun _ ↦ true)]) = .ok t ∧
      Observer.of t.journal.notifications =
        { state := .started, changes := 4, stereo := true, signal := some 70 } ∧
      t.radio.state = .started ∧ t.radio.changes = 4 ∧ t.radio.attributes.stereo = true ∧
      ∃ before p timedOut d after front readings, t.journal =
          before ++ .resolved p timedOut d :: after ∧ p.action.operation = .start .europeUs ∧
        before = front ++ .effect (.notify .started) :: readings := by
  obtain ⟨t, ht⟩ : ∃ t, (initial {}).run (searchBegun ++
      [(.pollDue 2, fun _ ↦ true), (.callback (.vendor 0xfc15 [0, 18, 1, 65, 0]), fun _ ↦ true),
        (.callback (.vendor 0xfc15 [0, 10, 1, 192, 93]), fun _ ↦ true),
        (.callback (.vendor 0xfc15 [0, 15, 1, 70]), fun _ ↦ true),
        (.callback (.vendor 0xfc15 [0, 10, 0]), fun _ ↦ true),
        (.callback (.vendor 0xfc15 [0, 9, 0]), fun _ ↦ true)]) = .ok t := ⟨_, rfl⟩
  obtain ⟨hstate, hchanges, hstereo, -, -, hheralds⟩ := notifications_tell_radio ht
  have hheard : Observer.of t.journal.notifications =
      { state := .started, changes := 4, stereo := true, signal := some 70 } ∧
      t.journal.completed.head?.map (fun p ↦ p.action.operation) = some (.start .europeUs) := by
    cases ht
    decide
  rw [hheard.1] at hstate hchanges hstereo
  obtain ⟨p, hp, hoperation⟩ := Option.map_eq_some_iff.mp hheard.2
  obtain ⟨e, he, hdone⟩ := List.mem_filterMap.mp (List.mem_of_head? hp)
  cases e with
  | resolved q timedOut d =>
      obtain ⟨before, after, hsplit⟩ := List.append_of_mem he
      simp only [Entry.done?, Option.ite_none_right_eq_some, Option.some.injEq] at hdone
      obtain ⟨hstatus, rfl⟩ := hdone
      obtain ⟨front, readings, hfront, -⟩ := hheralds.announced before _ after hsplit
        ⟨hstatus, by rw [hoperation]; rfl⟩
      exact ⟨t, ht, hheard.1, hstate.symm, hchanges.symm, hstereo.symm, before, q, timedOut, d,
        after, front, readings, hsplit, hoperation, hfront⟩
  | _ => simp [Entry.done?] at hdone

end Controller

end FmTuner
