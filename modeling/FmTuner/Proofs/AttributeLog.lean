import FmTuner.Proofs.Accounts

/-!
# The log of completed transitions

The attributes of the radio are no more than what the transitions that were done have recorded in
them, one after the other. `Attributes.record` says what each kind of operation records;
`Journal.attributes` plays a journal back.
-/

namespace FmTuner

/-! ## What a transition records -/

/-- What the three reads of a poll decoded: the stereo flag, the frequency and the signal. -/
def Action.polled? (action : Action) : Option (Bool × Freq × UInt8) :=
  match action.commands.map Command.reading with
  | [some (.scanStatus stereo), some (.frequency f), some (.signal level)] =>
      some (stereo, f, level)
  | _ => none

/-- The attributes after a transition that was done. A start forgets all but the two switches and
the stations. -/
def Attributes.record (a : Attributes) (p : Pending) : Attributes :=
  match p.action.operation with
  | .start band =>
      { band
        autoAfSwitch := a.autoAfSwitch
        autoTaSwitch := a.autoTaSwitch
        stations := a.stations }
  | .setFrequency f => { a with frequency := some f }
  | .setThreshold value => { a with threshold := value }
  | .setForceMono on => { a with forceMono := on }
  | .setAutoAfSwitch on => { a with autoAfSwitch := on }
  | .setAutoTaSwitch on => { a with autoTaSwitch := on }
  | .fullScan => { a with stations := [] }
  | .pollScan mode =>
      match p.action.polled? with
      | some (stereo, f, level) =>
          { a with
            frequency := some f
            signalStrength := some level
            stereo := stereo
            stations := if mode = .full then a.stations ++ [⟨f, level⟩] else a.stations }
      | none => a
  | _ => a

theorem Attributes.record_band_of_poll {a : Attributes} {p : Pending} {mode : ScanMode}
    (h : p.action.operation = .pollScan mode) : (a.record p).band = a.band := by
  rw [record, h]
  dsimp only
  split <;> rfl

/-- The three reads of a poll were confirmed, and decoded these readings. -/
def Action.Decodes (action : Action) (band : Band) (stereo : Bool) (f : Freq) (level : UInt8) :
    Prop :=
  ∃ rounds : List Round, (∀ r ∈ rounds, r.Confirmed band) ∧
    rounds.map Round.command = [.pollStatus, .readFrequency, .readSignal] ∧
    action.commands = rounds.map Round.completed ∧
    action.commands.map Command.reading =
      [some (.scanStatus stereo), some (.frequency f), some (.signal level)]

namespace Reading

def kind : Reading → ReadKind
  | .frequency _ => .frequency
  | .signal _ => .signal
  | .scanStatus _ => .scanStatus

variable {value : Reading}

theorem of_frequency (h : value.kind = .frequency) : ∃ f, value = .frequency f := by
  cases value with
  | frequency f => exact ⟨f, rfl⟩
  | _ => simp [kind] at h

theorem of_signal (h : value.kind = .signal) : ∃ level, value = .signal level := by
  cases value with
  | signal level => exact ⟨level, rfl⟩
  | _ => simp [kind] at h

theorem of_scanStatus (h : value.kind = .scanStatus) : ∃ stereo, value = .scanStatus stereo := by
  cases value with
  | scanStatus stereo => exact ⟨stereo, rfl⟩
  | _ => simp [kind] at h

end Reading

theorem ReadKind.reading_of_decode {kind : ReadKind} {data : List UInt8} {band : Band}
    {reading : Option Reading} (h : kind.decode data band = .ok (.success, reading)) :
    ∃ value, reading = some value ∧ value.kind = kind := by
  cases decodes_of_decode h with
  | tuned | level | found => exact ⟨_, rfl, rfl⟩

/-- A read that is confirmed has a reading of its kind. -/
theorem Command.reading_of_complete {register length : UInt8} {kind : ReadKind}
    {reading : Option Reading} {callback : Callback} {band : Band} {completed : Command}
    (h : (Command.read register length kind reading).complete callback band =
      .ok (completed, .success)) :
    ∃ value, completed.reading = some value ∧ value.kind = kind := by
  cases completes_of_complete h with
  | confirmed callback hread => simp [isRead] at hread
  | decoded hanswers hdecode => exact ReadKind.reading_of_decode hdecode

/-- A poll of which all reads were confirmed has a reading of each kind. -/
theorem Action.decodes_of_confirmed {action : Action} {band : Band} {rounds : List Round}
    (hconfirmed : ∀ r ∈ rounds, r.Confirmed band)
    (hcommands : rounds.map Round.command = [.pollStatus, .readFrequency, .readSignal])
    (hcompleted : action.commands = rounds.map Round.completed) :
    ∃ stereo f level, action.Decodes band stereo f level := by
  obtain ⟨status, rest, rfl, hstatus, hrest⟩ := List.map_eq_cons_iff.mp hcommands
  obtain ⟨frequency, rest, rfl, hfrequency, hrest⟩ := List.map_eq_cons_iff.mp hrest
  obtain ⟨signal, rest, rfl, hsignal, hrest⟩ := List.map_eq_cons_iff.mp hrest
  cases List.map_eq_nil_iff.mp hrest
  have hreads : ∀ r ∈ [status, frequency, signal], ∀ register length kind reading,
      r.command = .read register length kind reading →
        ∃ value, r.completed.reading = some value ∧ value.kind = kind := by
    intro r hr register length kind reading hread
    have hsuccess := (hconfirmed r hr).success
    rw [hread] at hsuccess
    exact Command.reading_of_complete hsuccess
  obtain ⟨flags, hflags, hkind₀⟩ := hreads status (by simp) _ _ _ _ hstatus
  obtain ⟨tuned, htuned, hkind₁⟩ := hreads frequency (by simp) _ _ _ _ hfrequency
  obtain ⟨level, hlevel, hkind₂⟩ := hreads signal (by simp) _ _ _ _ hsignal
  obtain ⟨stereo, rfl⟩ := Reading.of_scanStatus hkind₀
  obtain ⟨f, rfl⟩ := Reading.of_frequency hkind₁
  obtain ⟨level, rfl⟩ := Reading.of_signal hkind₂
  refine ⟨stereo, f, level, _, hconfirmed, hcommands, hcompleted, ?_⟩
  simp [hcompleted, hflags, htuned, hlevel]

theorem Action.Decodes.readings {action : Action} {band : Band} {stereo : Bool} {f : Freq}
    {level : UInt8} (h : action.Decodes band stereo f level) :
    action.polled? = some (stereo, f, level) ∧
      Readings.ofCommands action.commands = ⟨some f, some level, some stereo⟩ := by
  obtain ⟨rounds, -, -, -, hreadings⟩ := h
  refine ⟨by simp [polled?, hreadings], ?_⟩
  have hvalues : action.commands.filterMap Command.reading =
      [.scanStatus stereo, .frequency f, .signal level] := by
    rw [← Function.id_comp Command.reading, ← List.filterMap_map, hreadings]
    rfl
  simp [Readings.ofCommands, hvalues]

theorem Plan.Built.commands_of_poll {timing : Timing} {a : Attributes} {scanMode : Option ScanMode}
    {plan : Plan} {mode : ScanMode} (h : Built timing a scanMode (.pollScan mode) plan) :
    plan.action.commands = [.pollStatus, .readFrequency, .readSignal] := by
  cases h
  rfl

/-- What a hook does at the end of a transition that was done, it records. -/
theorem Plan.Built.record_of_apply {timing : Timing} {a b : Attributes}
    {scanMode : Option ScanMode} {plan : Plan} {p : Pending}
    (h : Built timing a scanMode p.action.operation plan)
    (hpoll : ∀ mode, p.action.operation = .pollScan mode →
      ∃ band stereo f level, p.action.Decodes band stereo f level)
    {followups : List Operation}
    (happly : plan.action.hook.apply .done p.action.commands a = .ok (b, followups)) :
    b = a.record p := by
  generalize hoperation : p.action.operation = operation at h hpoll
  cases h with
  | pollScan mode =>
      obtain ⟨band, stereo, f, level, hdecodes⟩ := hpoll mode rfl
      obtain ⟨hpolled, hreadings⟩ := hdecodes.readings
      simp only [ofCommands, Hook.apply, hreadings, bind, Except.bind] at happly
      split at happly
      next => simp at happly
      next result hresult =>
        obtain ⟨c, next⟩ := result
        cases happly
        cases mode with
        | full =>
            have hstation : Readings.station ⟨some f, some level, some stereo⟩ .full =
                some ⟨f, level⟩ := rfl
            simp only [Readings.poll, hstation, bind, Except.bind] at hresult
            split at hresult
            next => simp at hresult
            next =>
              cases hresult
              simp [Attributes.record, hoperation, hpolled, Readings.tune]
        | _ =>
            cases hresult
            simp [Attributes.record, hoperation, hpolled, Readings.tune]
  | _ =>
      cases happly
      simp [Attributes.record, hoperation, Attributes.restarted, defaultThreshold]

namespace Account

variable {x : Account} {p : Pending} {timedOut : Bool} {d : Controller}

/-- A poll that is done has decoded what it has read. -/
theorem Closed.decodes (h : x.Closed p timedOut d) (hvalid : x.Valid)
    (hdone : p.action.status = .done) {mode : ScanMode}
    (hmode : p.action.operation = .pollScan mode) :
    ∃ stereo f level, p.action.Decodes x.start.attributes.band stereo f level := by
  obtain ⟨rounds, hcompleted⟩ := h.done hdone
  have hbuilt := Plan.built_of_build hvalid.plan
  rw [← h.operation, hmode] at hbuilt
  refine Action.decodes_of_confirmed hcompleted.confirmed ?_ hcompleted.completed
  rw [← hcompleted.commands, hbuilt.commands_of_poll]

/-- A transition records what it did if it was done, and else leaves the attributes alone. -/
theorem Closed.attributes (h : x.Closed p timedOut d) (hvalid : x.Valid) :
    d.attributes =
      if p.action.status = .done then x.start.attributes.record p else x.start.attributes := by
  split
  next hdone =>
    obtain ⟨rounds, hcompleted⟩ := h.done hdone
    obtain ⟨followups, happly⟩ := hcompleted.hook
    have hbuilt := Plan.built_of_build hvalid.plan
    rw [← h.operation] at hbuilt
    exact hbuilt.record_of_apply (fun mode hmode ↦ ⟨_, h.decodes hvalid hdone hmode⟩) happly
  next hundone => exact h.undone hundone

end Account

/-! ## Playing a journal back -/

namespace Entry

/-- The transition that an entry says was done. -/
def done? : Entry → Option Pending
  | .resolved p _ _ => if p.action.status = .done then some p else none
  | _ => none

/-- The controller that an entry shows. -/
def controller? : Entry → Option Controller
  | .dispatched _ _ c | .begun _ c | .resolved _ _ c => some c
  | _ => none

end Entry

namespace Journal

/-- The transitions that were done, in the order in which they ended. -/
def completed (j : Journal) : List Pending := j.filterMap Entry.done?

/-- The attributes of a radio with this past. -/
def attributes (j : Journal) : Attributes := j.completed.foldl Attributes.record {}

/-- A controller on record has the attributes that its past has left. -/
def Logs (earlier : Journal) (e : Entry) : Prop :=
  ∀ c, e.controller? = some c → c.attributes = (earlier ++ [e]).attributes

/-- Nothing ends in `k`, and every controller on record has the attributes `a`. -/
structure Holds (k : Journal) (a : Attributes) : Prop where
  unended : ∀ e ∈ k, e.done? = none
  controllers : ∀ e ∈ k, ∀ c, e.controller? = some c → c.attributes = a

variable {j k : Journal} {a : Attributes}

@[simp] theorem completed_append (j k : Journal) :
    completed (j ++ k) = completed j ++ completed k := by
  simp [completed]

theorem attributes_append (j k : Journal) :
    (j ++ k).attributes = k.completed.foldl Attributes.record j.attributes := by
  simp [attributes]

theorem attributes_append_of_unended (h : ∀ e ∈ k, e.done? = none) :
    (j ++ k).attributes = j.attributes := by
  have hnone : k.completed = [] := by simpa [completed, List.filterMap_eq_nil_iff] using h
  rw [attributes_append, hnone, List.foldl_nil]

theorem attributes_resolved (j : Journal) (p : Pending) (timedOut : Bool) (c : Controller) :
    (j ++ [Entry.resolved p timedOut c]).attributes =
      if p.action.status = .done then j.attributes.record p else j.attributes := by
  rw [attributes_append]
  by_cases hdone : p.action.status = .done <;> simp [completed, Entry.done?, hdone]

/-- What shows no controller changes nothing. -/
theorem holds_of_silent (h : ∀ e ∈ k, e.controller? = none) (a : Attributes) : k.Holds a := by
  refine ⟨fun e he ↦ ?_, fun e he c hc ↦ by simp [h e he] at hc⟩
  cases e with
  | resolved => simpa [Entry.controller?] using h _ he
  | _ => rfl

theorem logs_append (hj : j.Each Logs) (hk : k.Holds j.attributes) : (j ++ k).Each Logs := by
  refine each_append hj fun before e after hsplit c hc ↦ ?_
  rw [List.append_assoc, attributes_append_of_unended]
  · exact hk.controllers e (by simp [hsplit]) c hc
  · exact fun x hx ↦ hk.unended x (by
      rw [hsplit, List.append_cons]
      exact List.mem_append_left _ hx)

theorem holds_of_not_milestone (h : ∀ e ∈ k, e.isMilestone = false) (a : Attributes) :
    k.Holds a := by
  refine holds_of_silent (fun e he ↦ ?_) a
  have hquiet := h e he
  cases e <;> first | rfl | simp [Entry.isMilestone] at hquiet

theorem logs_report (hj : j.Each Logs) (client : Option RequestId) (outcome : Outcome) :
    (j ++ ofReport client outcome).Each Logs :=
  each_report hj fun _ _ _ hc ↦ by simp [Entry.controller?] at hc

end Journal

namespace Turn

/-- The attributes are those that the journal has recorded, and were so all along. -/
structure Logged (t : Turn) : Prop where
  attributes : t.radio.attributes = t.journal.attributes
  logs : t.journal.Each Journal.Logs

variable {accepts : Call → Bool} {e : Option Event} {t u : Turn} {k : Journal} {p : Pending}
  {x : Account} {before : Journal} {progress : Progress}

theorem Logged.extend (h : t.Logged) (hjournal : u.journal = t.journal ++ k)
    (hk : k.Holds t.radio.attributes) (hattributes : u.radio.attributes = t.radio.attributes) :
    u.Logged := by
  constructor
  · rw [hjournal, Journal.attributes_append_of_unended hk.unended, hattributes]
    exact h.attributes
  · rw [hjournal]
    exact Journal.logs_append h.logs (h.attributes ▸ hk)

theorem Taken.logged {r : Request} (htaken : Taken e t r u) (h : t.Logged) : u.Logged := by
  cases htaken with
  | queued =>
      refine h.extend (take_journal ..) ⟨by simp [Entry.done?], ?_⟩ rfl
      simp [Entry.controller?]
  | poll => exact h

theorem Logged.launch (h : t.Logged) (p : Pending) (notices : List Notification) :
    (t.launch p notices).Logged := by
  refine h.extend (launch_journal ..) ⟨by simp [Entry.done?], ?_⟩ rfl
  simp [Entry.controller?]

theorem Logged.hold (h : t.Logged) (p : Pending)
    (hattributes : progress.attributes = t.radio.attributes) : (t.hold p progress).Logged :=
  h.extend (hold_journal ..)
    (Journal.holds_of_not_milestone (Journal.not_milestone_ofProgress _ _) _)
    (by simpa using hattributes)

/-- The end of a transition records what it did in the attributes. -/
theorem Logged.settle (h : t.Logged) (hrecords : t.Records p x before) (hscoped : t.radio.Scoped)
    (hsame : progress.action.operation = p.action.operation ∧ progress.action.hook = p.action.hook)
    (hends : (x.extend (Journal.ofProgress t.radio.arrivals progress)).Ends progress)
    {timedOut : Bool} (hlate : timedOut = true → progress.action.status = .error)
    (armed : Bool) : (t.settle p progress armed timedOut).Logged := by
  obtain ⟨k, hk, hclosed, hjournal⟩ := hrecords.settle hscoped hsame hends hlate armed
  have hholds : k.Holds t.journal.attributes := Journal.holds_of_not_milestone hk _
  have hattributes := hclosed.attributes (hrecords.valid.extend hk)
  have hstart : (x.extend k).start.attributes = (t.journal ++ k).attributes := by
    rw [Journal.attributes_append_of_unended hholds.unended, ← h.attributes, hrecords.attributes]
    rfl
  have hresolved : (t.settle p progress armed timedOut).radio.attributes =
      (t.journal ++ k ++ [Entry.resolved { p with action := progress.action } timedOut
        (t.settle p progress armed timedOut).radio]).attributes := by
    rw [hattributes, hstart, Journal.attributes_resolved]
  have hreport : ∀ e ∈ Journal.ofReport p.request
      (resolution { p with action := progress.action } timedOut).2, e.done? = none := by
    cases p.request <;> simp [Journal.ofReport, Entry.done?]
  constructor
  · rw [hjournal, List.append_cons, Journal.attributes_append_of_unended hreport]
    exact hresolved
  · rw [hjournal, List.append_cons]
    refine Journal.logs_report (Journal.each_snoc (Journal.logs_append h.logs hholds) ?_) _ _
    rintro c ⟨⟩
    exact hresolved

theorem Move.logged (hmove : Move accepts e t u) (haccounts : t.Accounts) (h : t.Logged) :
    u.Logged := by
  cases hmove with
  | ready =>
      have hjournal := enter_journal (t := t) .idle
      rw [List.append_assoc] at hjournal
      exact h.extend hjournal (Journal.holds_of_not_milestone (Journal.not_milestone_enter _ _ _ _) _)
        (by simp)
  | arrive r =>
      refine h.extend (enqueue_journal ..) (Journal.holds_of_not_milestone ?_ _) rfl
      simp [Entry.isMilestone]
  | @decline _ _ v r outcome htaken hdecline =>
      refine (htaken.logged h).extend (report_journal ..) (Journal.holds_of_silent ?_ _) (by simp)
      cases r.id <;> simp [Journal.ofReport, Entry.controller?]
  | @begin _ _ v r destination plan progress htaken hroute hplan hbegins hstatus =>
      obtain ⟨hattributes, -⟩ := Account.underway_of_begins
        (opened_exchanges v r destination plan) hbegins hstatus v.radio.arrivals
      refine (((htaken.logged h).launch _ _).hold _ hattributes).extend (emit_journal ..)
        (Journal.holds_of_not_milestone ?_ _) rfl
      simp [Entry.isMilestone]
  | @flash _ _ v r destination plan progress htaken hroute hplan hbegins hstatus =>
      exact ((htaken.logged h).launch _ _).settle (htaken.records hroute hplan)
        (htaken.accounts_launch haccounts).1 hbegins.same
        (Account.ends_of_begins (opened_exchanges ..) hbegins hstatus _) (by simp) false
  | advance hpending hadvances hstatus =>
      exact h.hold _ (haccounts.advance hpending hadvances hstatus).1
  | finish hpending hadvances hstatus =>
      obtain ⟨x, before, hrecords, hends⟩ := haccounts.finish hpending hadvances hstatus
      exact h.settle hrecords haccounts.scope hadvances.same hends (by simp) true
  | expire hpending =>
      obtain ⟨x, before, hrecords, hends⟩ := haccounts.expire hpending _
      exact h.settle hrecords haccounts.scope ⟨rfl, rfl⟩ hends (fun _ ↦ rfl) true

end Turn

namespace Controller

variable {timing : Timing} {script : List (Event × (Call → Bool))} {t : Turn}

theorem initial_logged (timing : Timing) : Turn.Logged { radio := initial timing } := by
  refine ⟨rfl, fun before entry after hsplit ↦ ?_⟩
  simp at hsplit

theorem run_logged (h : (initial timing).run script = .ok t) : t.Logged := by
  have hrun := run_induction (P := fun t ↦ t.Accounts ∧ t.Logged)
    ⟨initial_accounts timing, initial_logged timing⟩
    (fun _ _ _ _ _ ht _ _ hmove ↦ ⟨hmove.accounts ht.1, hmove.logged ht.1 ht.2⟩)
    (fun _ _ _ ht _ hmove ↦ ⟨hmove.accounts ht.1, hmove.logged ht.1 ht.2⟩) h
  exact hrun.1.2

/-- A callback that nothing waits for, late or a second time, does nothing. -/
theorem step_callback_of_none {c : Controller} (hrested : c.Rested) (hpending : c.pending = none)
    (callback : Callback) (accepts : Call → Bool) :
    c.step accepts (.callback callback) = .ok { radio := c } := by
  have hhear : Turn.hear accepts { radio := c } callback = .ok { radio := c } := by
    rw [Turn.hear, hpending]
  rw [step, if_neg (by simp), Turn.react, hhear]
  exact Turn.drainWith_of_rested hrested _

/-- The attributes are what the transitions that were done have recorded, in the order in which
they ended: after every run, over every step, and wherever the journal shows the controller. So
nothing else changes them, be it a request that waits or is declined, or a transition that ends in
another way. A poll that was done has decoded all three of its reads. A callback counts as the
answer to the command in flight, and does nothing at all when there is none. -/
theorem attributes_are_log_of_done (h : (initial timing).run script = .ok t) :
    t.radio.attributes = t.journal.completed.foldl Attributes.record {} ∧
    (∀ event accepts u, t.radio.step accepts event = .ok u →
      u.radio.attributes = u.journal.completed.foldl Attributes.record t.radio.attributes) ∧
    (∀ (before : Journal) e after c, t.journal = before ++ e :: after → e.controller? = some c →
      c.attributes = (before ++ [e]).completed.foldl Attributes.record {}) ∧
    (∀ p timedOut d mode, Entry.resolved p timedOut d ∈ t.journal → p.action.status = .done →
      p.action.operation = .pollScan mode →
        ∃ stereo f level, p.action.Decodes d.attributes.band stereo f level) ∧
    (t.radio.pending = none → ∀ callback accepts,
      t.radio.step accepts (.callback callback) = .ok { radio := t.radio }) := by
  have hlogged := run_logged h
  refine ⟨hlogged.attributes, fun event accepts u hstep ↦ ?_, fun before e after c hsplit hc ↦ ?_,
    fun p timedOut d mode hmem hdone hmode ↦ ?_, fun hpending callback accepts ↦ ?_⟩
  · have hlater := (run_logged (run_snoc h hstep)).attributes
    rw [Journal.attributes_append, ← hlogged.attributes] at hlater
    exact hlater
  · exact hlogged.logs before e after hsplit c hc
  · obtain ⟨before, after, hsplit⟩ := List.append_of_mem hmem
    obtain ⟨x, front, -, hvalid, -, hclosed⟩ := (run_accounts h).accounted before _ after hsplit
    have hband : d.attributes.band = x.start.attributes.band := by
      rw [hclosed.attributes hvalid, if_pos hdone]
      exact Attributes.record_band_of_poll hmode
    rw [hband]
    exact hclosed.decodes hvalid hdone hmode
  · exact step_callback_of_none (run_paced h).2.2 hpending callback accepts

/-- A search that finds a channel leaves what its poll has read, and a callback that comes after it
has ended changes nothing. -/
theorem found_channel_is_on_log :
    ∃ t, (initial {}).run (searchBegun ++
        [(.pollDue 2, fun _ ↦ true), (.callback (.vendor 0xfc15 [0, 18, 1, 65, 0]), fun _ ↦ true),
          (.callback (.vendor 0xfc15 [0, 10, 1, 192, 93]), fun _ ↦ true),
          (.callback (.vendor 0xfc15 [0, 15, 1, 70]), fun _ ↦ true),
          (.callback (.vendor 0xfc15 [0, 10, 0]), fun _ ↦ true),
          (.callback (.vendor 0xfc15 [0, 9, 0]), fun _ ↦ true)]) = .ok t ∧
      t.journal.completed.map (fun p ↦ p.action.operation) =
        [.start .europeUs, .scanUp, .pollScan .up, .scanDone .up false] ∧
      t.journal.completed.foldl Attributes.record {} =
        { frequency := some ⟨88000⟩, signalStrength := some 70, stereo := true } ∧
      t.radio.attributes = t.journal.completed.foldl Attributes.record {} ∧
      t.radio.step (fun _ ↦ true) (.callback (.vendor 0xfc15 [0, 9, 0])) =
        .ok { radio := t.radio } := by
  obtain ⟨t, ht⟩ : ∃ t, (initial {}).run (searchBegun ++
      [(.pollDue 2, fun _ ↦ true), (.callback (.vendor 0xfc15 [0, 18, 1, 65, 0]), fun _ ↦ true),
        (.callback (.vendor 0xfc15 [0, 10, 1, 192, 93]), fun _ ↦ true),
        (.callback (.vendor 0xfc15 [0, 15, 1, 70]), fun _ ↦ true),
        (.callback (.vendor 0xfc15 [0, 10, 0]), fun _ ↦ true),
        (.callback (.vendor 0xfc15 [0, 9, 0]), fun _ ↦ true)]) = .ok t := ⟨_, rfl⟩
  have hlog := attributes_are_log_of_done ht
  have hend : t.radio.pending = none ∧ t.journal.completed.map (fun p ↦ p.action.operation) =
      [.start .europeUs, .scanUp, .pollScan .up, .scanDone .up false] ∧
      t.journal.completed.foldl Attributes.record {} =
        { frequency := some ⟨88000⟩, signalStrength := some 70, stereo := true } := by
    cases ht
    decide
  exact ⟨t, ht, hend.2.1, hend.2.2, hlog.1, hlog.2.2.2.2 hend.1 _ _⟩

end Controller

end FmTuner
