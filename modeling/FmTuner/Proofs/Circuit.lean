import FmTuner.Proofs.Panel
import FmTuner.Proofs.Reports
import FmTuner.Receiver

/-!
# Circuits

A circuit is a receiver together with everything that is on its way to the controller: the answers
of the chip, and the delays that have yet to elapse. Answers bear no mark of the command that they
answer. The invariant `Circuit.Sound` says why they need none: nothing is on its way while no
transition is in flight, and otherwise nothing but the answer to the command that waits.
-/

namespace FmTuner

/-! ## What a journal does to the surroundings -/

namespace Journal

/-- The callbacks of the delays that have begun. -/
def elapses (j : Journal) : List Callback :=
  j.effects.filterMap fun | .armDelay _ => some .delayElapsed | _ => none

/-- Whether the sound is muted, after the changes of state that were announced. -/
def muted (before : Bool) (j : Journal) : Bool :=
  j.notifications.foldl
    (fun muted n ↦ match n with | .stateChanged old new => RadioState.mutes muted old new | _ => muted)
    before

@[simp] theorem notifications_append (j k : Journal) :
    notifications (j ++ k) = notifications j ++ notifications k := by
  simp [notifications]

@[simp] theorem elapses_append (j k : Journal) : elapses (j ++ k) = elapses j ++ elapses k := by
  simp [elapses]

@[simp] theorem muted_append (before : Bool) (j k : Journal) :
    muted before (j ++ k) = muted (muted before j) k := by
  simp [muted]

/-- Entries that reach neither the chip nor the clock and announce no change of state. -/
structure Calm (j : Journal) : Prop where
  sent : sent j = []
  elapses : elapses j = []
  muted : ∀ before, muted before j = before

end Journal

def Entry.isCalm : Entry → Bool
  | .exchanged _ | .effect (.armDelay _) | .effect (.notify (.stateChanged ..)) => false
  | _ => true

namespace Journal

theorem calm_nil : Calm [] := ⟨rfl, rfl, fun _ ↦ rfl⟩

theorem Calm.append {j k : Journal} (hj : Calm j) (hk : Calm k) : Calm (j ++ k) :=
  ⟨by rw [sent_append, hj.sent, hk.sent]; rfl, by rw [elapses_append, hj.elapses, hk.elapses]; rfl,
    fun before ↦ by rw [muted_append, hj.muted, hk.muted]⟩

theorem calm_of_entries {j : Journal} (h : ∀ e ∈ j, e.isCalm = true) : Calm j := by
  induction j with
  | nil => exact calm_nil
  | cons e rest ih =>
      rw [List.forall_mem_cons] at h
      have he : Calm [e] := by
        cases e with
        | exchanged x => simp [Entry.isCalm] at h
        | effect f =>
            cases f with
            | armDelay ms => simp [Entry.isCalm] at h
            | notify n =>
                cases n <;> first | exact ⟨rfl, rfl, fun _ ↦ rfl⟩ | simp [Entry.isCalm] at h
            | _ => exact ⟨rfl, rfl, fun _ ↦ rfl⟩
        | _ => exact ⟨rfl, rfl, fun _ ↦ rfl⟩
      exact he.append (ih h.2)

theorem calm_ofReport (id : Option RequestId) (outcome : Outcome) : Calm (ofReport id outcome) :=
  calm_of_entries (by cases id <;> simp [ofReport, Entry.isCalm])

theorem calm_ofPoll (target : RadioState) (generation after : Nat) :
    Calm (ofPoll target generation after) :=
  calm_of_entries (by unfold ofPoll; split <;> simp [Entry.isCalm])

theorem calm_ofStart (p : Pending) : Calm (ofStart p) :=
  calm_of_entries (by unfold ofStart; split <;> simp [Entry.isCalm])

theorem calm_ofReadings (p : Pending) (a : Attributes) : Calm (ofReadings p a) := by
  refine .append (calm_of_entries ?_) (calm_of_entries ?_)
  · cases a.signalStrength with
    | none => simp
    | some level => by_cases h : p.signalBefore = some level <;> simp [h, Entry.isCalm]
  · split <;> simp [Entry.isCalm]

theorem calm_queued (qs : List Queued) : Calm (qs.map .queued) :=
  calm_of_entries (by simp [Entry.isCalm])

theorem ofChange_views (old new : RadioState) :
    sent (ofChange old new) = [] ∧ elapses (ofChange old new) = [] ∧
      ∀ before, muted before (ofChange old new) = RadioState.mutes before old new := by
  unfold ofChange
  split
  next h =>
    subst h
    exact ⟨rfl, rfl, fun before ↦ by cases new <;> rfl⟩
  next => cases new <;> exact ⟨rfl, rfl, fun _ ↦ rfl⟩

theorem ofEnd_views (c : Controller) (p : Pending) (armed timedOut : Bool) :
    sent (ofEnd c p armed timedOut) = [] ∧ elapses (ofEnd c p armed timedOut) = [] ∧
      ∀ before, muted before (ofEnd c p armed timedOut) =
        RadioState.mutes before c.state (Turn.resolution p timedOut).1 := by
  have harmed : Calm (if armed then [.effect .disarmTimeout] else []) :=
    calm_of_entries (by cases armed <;> simp [Entry.isCalm])
  have hresolved : Calm [.resolved p timedOut (c.resolved p timedOut)] :=
    calm_of_entries (by simp [Entry.isCalm])
  obtain ⟨hsent, helapses, hmuted⟩ := ofChange_views c.state (Turn.resolution p timedOut).1
  have hrest := (((calm_ofPoll (Turn.resolution p timedOut).1 c.generation
    c.timing.pollInterval).append (calm_ofStart p)).append (calm_ofReadings p c.attributes)).append
      (hresolved.append (calm_ofReport p.request (Turn.resolution p timedOut).2))
  have heq : ofEnd c p armed timedOut =
      (if armed then [.effect .disarmTimeout] else []) ++
        (ofChange c.state (Turn.resolution p timedOut).1 ++
          (ofPoll (Turn.resolution p timedOut).1 c.generation c.timing.pollInterval ++ ofStart p ++
            ofReadings p c.attributes ++ ([.resolved p timedOut (c.resolved p timedOut)] ++
              ofReport p.request (Turn.resolution p timedOut).2))) := by
    simp [ofEnd]
  rw [heq]
  refine ⟨?_, ?_, fun before ↦ ?_⟩
  · rw [sent_append, harmed.sent, sent_append, hsent, hrest.sent]
    rfl
  · rw [elapses_append, harmed.elapses, elapses_append, helapses, hrest.elapses]
    rfl
  · rw [muted_append, harmed.muted, muted_append, hmuted, hrest.muted]

theorem ofProgress_views (first : Nat) (p : Progress) :
    sent (ofProgress first p) = p.sent ∧
      elapses (ofProgress first p) = p.delays.map (fun _ ↦ .delayElapsed) ∧
        ∀ before, muted before (ofProgress first p) = before := by
  have hqueued := calm_queued (followups first p.followups)
  have hexchanged : ∀ xs : List Exchange, sent (xs.map .exchanged) = xs.filterMap Exchange.sent ∧
      elapses (xs.map .exchanged) = [] ∧ ∀ before, muted before (xs.map .exchanged) = before := by
    intro xs
    have heffects : effects (xs.map .exchanged) = [] := by
      simp [effects, List.filterMap_map, Function.comp_def, Entry.effect?]
    refine ⟨?_, by simp [elapses, heffects], fun before ↦ by simp [muted, notifications, heffects]⟩
    simp [sent, List.filterMap_map, Function.comp_def, Entry.sent?]
  have hdelays : ∀ ds : List Nat, sent (ds.map fun ms ↦ .effect (.armDelay ms)) = [] ∧
      elapses (ds.map fun ms ↦ .effect (.armDelay ms)) = ds.map (fun _ ↦ .delayElapsed) ∧
        ∀ before, muted before (ds.map fun ms ↦ .effect (.armDelay ms)) = before := by
    intro ds
    refine ⟨by simp [sent, Entry.sent?], ?_, fun before ↦ ?_⟩
    · simp [elapses, effects, List.filterMap_map, Function.comp_def, Entry.effect?]
    · have hnone : notifications (ds.map fun ms ↦ .effect (.armDelay ms)) = [] := by
        simp [notifications, effects, List.filterMap_map, Function.comp_def, Entry.effect?]
      simp [muted, hnone]
  obtain ⟨hxs, hxe, hxm⟩ := hexchanged p.exchanges
  obtain ⟨hds, hde, hdm⟩ := hdelays p.delays
  refine ⟨?_, ?_, fun before ↦ ?_⟩
  · simp only [ofProgress, sent_append, hxs, hds, hqueued.sent, List.append_nil]
    rfl
  · simp only [ofProgress, elapses_append, hxe, hde, hqueued.elapses, List.append_nil,
      List.nil_append]
  · rw [ofProgress, muted_append, muted_append, hxm, hdm, hqueued.muted]

end Journal

/-! ## Circuits -/

structure Circuit where
  receiver : Receiver
  /-- The callbacks that the controller has yet to hear. -/
  inFlight : List Callback

namespace Circuit

/-- A simulated chip and a controller that waits for the hardware. -/
def start (timing : Timing) (settings : ChipSettings) : Circuit where
  receiver := { radio := .initial timing, chip := .ofSettings settings }
  inFlight := []

/-- Whether an event can happen: a callback, only if it is on its way. Requests, timeouts and polls
may come at any time. -/
def Offers (c : Circuit) : Event → Prop
  | .callback answer => answer ∈ c.inFlight
  | _ => True

def left (c : Circuit) : Event → List Callback
  | .callback answer => c.inFlight.erase answer
  | _ => c.inFlight

/-- Hands an event to the controller. What the chip answers and the delays that begin are on their
way afterwards. -/
def step (c : Circuit) (event : Event) : Except Crash (Circuit × Journal) :=
  match c.receiver.step (fun _ ↦ true) event with
  | .error crash => .error crash
  | .ok reaction =>
      .ok ({ receiver := reaction.receiver
             inFlight := c.left event ++ reaction.answers ++ reaction.journal.elapses },
        reaction.journal)

/-- The circuits that a course of events leads to, with all that has happened on the way. -/
inductive Reaches (timing : Timing) (settings : ChipSettings) :
    List Event → Journal → Circuit → Prop where
  | start : Reaches timing settings [] [] (start timing settings)
  | step {events : List Event} {history journal : Journal} {c d : Circuit} {event : Event}
      (h : Reaches timing settings events history c) (hoffers : c.Offers event)
      (hstep : c.step event = .ok (d, journal)) :
      Reaches timing settings (events ++ [event]) (history ++ journal) d

instance (c : Circuit) (event : Event) : Decidable (c.Offers event) := by
  cases event <;> unfold Offers <;> infer_instance

/-- The course of given events, if all of them can happen and none is cut short by a fault. -/
def run (c : Circuit) : List Event → Option (Circuit × Journal)
  | [] => some (c, [])
  | event :: rest =>
      if c.Offers event then
        match c.step event with
        | .ok (d, journal) => (d.run rest).map fun (e, more) ↦ (e, journal ++ more)
        | .error _ => none
      else none

theorem Reaches.run {timing : Timing} {settings : ChipSettings} {events more : List Event}
    {history journal : Journal} {c d : Circuit} (h : Reaches timing settings events history c)
    (hrun : c.run more = some (d, journal)) :
    Reaches timing settings (events ++ more) (history ++ journal) d := by
  induction more generalizing c events history journal with
  | nil =>
      cases hrun
      simpa using h
  | cons event rest ih =>
      rw [Circuit.run] at hrun
      split at hrun
      next hoffers =>
        split at hrun
        next c' now hstep =>
          obtain ⟨⟨e, later⟩, hrest, heq⟩ := Option.map_eq_some_iff.mp hrun
          cases heq
          simpa using ih (h.step hoffers hstep) hrest
        next => simp at hrun
      next => simp at hrun

end Circuit

/-- The answers to the commands of a start. -/
def startAnswers : List Event :=
  [.callback (.power true), .callback (.vendor 0xfc15 [0, 0, 0]), .callback .delayElapsed,
    .callback (.vendor 0xfc15 [0, 1, 0]), .callback (.vendor 0xfc15 [0, 5, 0])]

namespace Circuit

/-- How an answer came about: the chip gave it when it carried out the command's call, and has been
left alone since; for a command without a call, its delay elapses. -/
def Brought (chip : Chip) (command : Command) (answer : Callback) : Prop :=
  match command.call with
  | some call => ∃ before : Chip, before.call call = some (chip, answer)
  | none => answer = .delayElapsed

/-- The transition in flight waits for the one answer that is on its way. -/
structure Expects (c : Circuit) (muted : Bool) (p : Pending) (command : Command)
    (answer : Callback) : Prop where
  current : p.action.commands[p.action.index]? = some command
  inFlight : c.inFlight = [answer]
  brought : Brought c.receiver.chip command answer
  answered : command.Answered answer
  stay : command.isRead = true → c.receiver.chip.panel.Fits c.receiver.radio.state muted
  rest : c.receiver.chip.panel.Conducts (Panel.Fits c.receiver.radio.state muted)
    (Panel.Fits p.destination (RadioState.mutes muted c.receiver.radio.state p.destination))
    (p.action.commands.drop (p.action.index + 1))

/-- A circuit in which answers find the commands that they belong to. -/
inductive Sound (c : Circuit) (muted : Bool) : Prop where
  | resting (hpending : c.receiver.radio.pending = none) (hinFlight : c.inFlight = [])
      (hpanel : c.receiver.chip.panel.Fits c.receiver.radio.state muted)
  | waiting {p : Pending} {command : Command} {answer : Callback}
      (hpending : c.receiver.radio.pending = some p) (hsource : p.source = c.receiver.radio.state)
      (hinvalid : c.receiver.radio.state ≠ .invalid) (herror : c.receiver.radio.state ≠ .error)
      (hexpects : c.Expects muted p command answer)

theorem Sound.state_ne_error {c : Circuit} {muted : Bool} (h : c.Sound muted) :
    c.receiver.radio.state ≠ .error := by
  cases h with
  | resting _ _ hpanel =>
      intro herror
      rw [herror] at hpanel
      exact hpanel.elim
  | waiting _ _ _ herror => exact herror

end Circuit

/-! ## One command after another -/

/-- A command that the panel takes brings one answer on its way. -/
theorem Chip.issue_ok {chip : Chip} {command : Command} (htakes : chip.panel.Takes command) :
    command.accepted chip.accepts = true ∧
      ∃ answer,
        (chip.serve (command.call.map (·, true)).toList).2 ++
            command.delayMs.toList.map (fun _ ↦ .delayElapsed) = [answer] ∧
          Circuit.Brought (chip.serve (command.call.map (·, true)).toList).1 command answer ∧
            command.Answered answer ∧
              (chip.serve (command.call.map (·, true)).toList).1.panel =
                chip.panel.after command := by
  cases hcall : command.call with
  | none =>
      cases command with
      | delay ms =>
          refine ⟨rfl, .delayElapsed, rfl, rfl, ?_, rfl⟩
          rintro band completed verdict hcomplete
          cases hcomplete
          simp
      | _ => simp [Command.call] at hcall
  | some call =>
      obtain ⟨d, answer, hd, hpanel, hanswered⟩ := call_ok htakes hcall
      have hdelay : command.delayMs = none := by
        cases command <;> first | rfl | simp [Command.call] at hcall
      refine ⟨by simp [Command.accepted, hcall, accepts, hd], answer, ?_⟩
      simp only [Option.map_some, Option.toList_some, serve, if_true, hd, hdelay, Option.toList_none,
        List.map_nil, List.append_nil]
      exact ⟨trivial, by simp only [Circuit.Brought, hcall]; exact ⟨chip, hd⟩, hanswered, hpanel⟩

namespace Turn

/-- The circuit that a turn leaves, when the chip was `chip` before it and `left` had been on its
way. -/
def circuit (t : Turn) (chip : Chip) (left : List Callback) : Circuit where
  receiver := { radio := t.radio, chip := (chip.serve t.journal.sent).1 }
  inFlight := left ++ (chip.serve t.journal.sent).2 ++ t.journal.elapses

/-- A turn that leaves a sound circuit. The chip has taken all that it was asked for, and was asked
for nothing unless a transition is in flight. -/
structure Sound (t : Turn) (chip : Chip) (left : List Callback) (muted : Bool) : Prop where
  circuit : (t.circuit chip left).Sound (t.journal.muted muted)
  quiet : t.radio.pending = none → t.journal.sent = []
  taken : ∀ x ∈ t.journal.sent, x.2 = true

variable {accepts : Call → Bool} {e : Option Event} {t u : Turn} {chip : Chip}
  {left : List Callback} {muted : Bool}

/-- What a turn leaves depends on nothing but its transition, its state and what it does to the
surroundings. -/
theorem Sound.congr (h : t.Sound chip left muted) {j : Journal} (hj : j.Calm)
    (hjournal : u.journal = t.journal ++ j) (hstate : u.radio.state = t.radio.state)
    (hpending : u.radio.pending = t.radio.pending) : u.Sound chip left muted := by
  have hsent : u.journal.sent = t.journal.sent := by simp [hjournal, hj.sent]
  have helapses : u.journal.elapses = t.journal.elapses := by simp [hjournal, hj.elapses]
  have hmuted : u.journal.muted muted = t.journal.muted muted := by simp [hjournal, hj.muted]
  obtain ⟨hcircuit, hquiet, htaken⟩ := h
  refine ⟨?_, by rwa [hpending, hsent], by rwa [hsent]⟩
  rw [hmuted]
  cases hcircuit with
  | resting hnone hinFlight hpanel =>
      refine .resting (hpending.trans hnone) ?_ ?_
      · rw [← hinFlight, Turn.circuit, Turn.circuit, hsent, helapses]
      · simpa only [Turn.circuit, hsent, hstate] using hpanel
  | @waiting p command answer hsome hsource hinvalid herror hexpects =>
      have hsame : (u.circuit chip left).inFlight = (t.circuit chip left).inFlight := by
        rw [Turn.circuit, Turn.circuit, hsent, helapses]
      have hchip : (u.circuit chip left).receiver.chip = (t.circuit chip left).receiver.chip := by
        rw [Turn.circuit, Turn.circuit, hsent]
      have hstate' : (u.circuit chip left).receiver.radio.state =
          (t.circuit chip left).receiver.radio.state := hstate
      refine .waiting (hpending.trans hsome) (hsource.trans hstate.symm) (hstate ▸ hinvalid)
        (hstate ▸ herror) ⟨hexpects.current, hsame.trans hexpects.inFlight, ?_, hexpects.answered,
          ?_, ?_⟩
      · rw [hchip]
        exact hexpects.brought
      · rw [hchip, hstate']
        exact hexpects.stay
      · rw [hchip, hstate']
        exact hexpects.rest

theorem Taken.sound {r : Request} (htaken : Taken e t r u) (h : t.Sound chip left muted) :
    u.Sound chip left muted := by
  cases htaken with
  | queued hpending hqueue =>
      exact h.congr (Journal.calm_of_entries (by simp [Entry.isCalm])) (take_journal ..) rfl rfl
  | poll => exact h

theorem Sound.panel (h : t.Sound chip left muted) (hpending : t.radio.pending = none) :
    t.journal.sent = [] ∧ left ++ t.journal.elapses = [] ∧
      chip.panel.Fits t.radio.state (t.journal.muted muted) := by
  have hsent := h.quiet hpending
  cases h.circuit with
  | resting hnone hinFlight hpanel =>
      simp only [Turn.circuit, hsent, Chip.serve, List.append_nil] at hinFlight hpanel
      exact ⟨hsent, hinFlight, hpanel⟩
  | waiting hsome =>
      have hsome' : t.radio.pending = some _ := hsome
      simp [hpending] at hsome'

/-- A command that has just been sent is the one that waits. -/
theorem Sound.of_issue (command : Command) {p : Pending} (hpending : t.radio.pending = some p)
    (hsource : p.source = t.radio.state) (hinvalid : t.radio.state ≠ .invalid)
    (herror : t.radio.state ≠ .error) (hleft : left = [])
    (hsent : t.journal.sent = (command.call.map (·, true)).toList)
    (helapses : t.journal.elapses = command.delayMs.toList.map fun _ ↦ .delayElapsed)
    (hcurrent : p.action.commands[p.action.index]? = some command)
    (hconducts : chip.panel.Conducts (Panel.Fits t.radio.state (t.journal.muted muted))
      (Panel.Fits p.destination
        (RadioState.mutes (t.journal.muted muted) t.radio.state p.destination))
      (command :: p.action.commands.drop (p.action.index + 1))) :
    t.Sound chip left muted := by
  obtain ⟨htakes, hstay, hrest⟩ := hconducts
  obtain ⟨-, answer, hanswer, hbrought, hanswered, hafter⟩ := Chip.issue_ok htakes
  refine ⟨.waiting hpending hsource hinvalid herror ⟨hcurrent, ?_, ?_, hanswered, ?_, ?_⟩, ?_, ?_⟩
  · simp only [Turn.circuit, hleft, hsent, helapses, List.nil_append]
    exact hanswer
  · simp only [Turn.circuit, hsent]
    exact hbrought
  · simp only [Turn.circuit, hsent, hafter]
    exact hstay
  · simp only [Turn.circuit, hsent, hafter]
    exact hrest
  · simp [hpending]
  · cases hcall : command.call <;> simp [hsent, hcall]

theorem mutes_self (muted : Bool) (state : RadioState) :
    RadioState.mutes muted state state = muted := by
  cases state <;> rfl

/-- A transition that ends without asking anything more of the chip leaves nothing on its way. -/
theorem Sound.of_settle {p : Pending} {progress : Progress} {armed timedOut : Bool}
    (hquiet : t.journal.sent = []) (hsent : progress.sent = []) (hdelays : progress.delays = [])
    (hleft : left ++ t.journal.elapses = [])
    (hfits : chip.panel.Fits (resolution { p with action := progress.action } timedOut).1
      (RadioState.mutes (t.journal.muted muted) t.radio.state
        (resolution { p with action := progress.action } timedOut).1)) :
    (t.settle p progress armed timedOut).Sound chip left muted := by
  obtain ⟨hps, hpe, hpm⟩ := Journal.ofProgress_views t.radio.arrivals progress
  obtain ⟨hes, hee, hem⟩ := Journal.ofEnd_views (t.settling progress)
    { p with action := progress.action } armed timedOut
  have hjournal : (t.settle p progress armed timedOut).journal.sent = [] := by
    rw [settle_journal, Journal.sent_append, Journal.sent_append, hquiet, hps, hsent, hes]
    rfl
  have hpending : (t.settle p progress armed timedOut).radio.pending = none := by
    simp [Controller.resolved]
  have hstate : (t.settle p progress armed timedOut).radio.state =
      (resolution { p with action := progress.action } timedOut).1 := by
    simp [Controller.resolved]
  refine ⟨.resting hpending ?_ ?_, fun _ ↦ hjournal, by rw [hjournal]; exact List.forall_mem_nil _⟩
  · simp only [Turn.circuit, hjournal, Chip.serve, List.append_nil]
    rw [settle_journal, Journal.elapses_append, Journal.elapses_append, hpe, hdelays, hee]
    simpa using hleft
  · simp only [Turn.circuit, hjournal, Chip.serve, hstate]
    rw [settle_journal, Journal.muted_append, Journal.muted_append, hpm, hem]
    exact hfits

section

variable {r : Request} {destination : RadioState} {plan : Plan} {progress : Progress}

theorem launch_calm {a : Attributes} {timing : Timing} {scanMode : Option ScanMode}
    (h : Plan.Built timing a scanMode r.operation plan) (p : Pending) (c : Controller) :
    Journal.Calm (.begun p c :: plan.notices.map fun n ↦ .effect (.notify n)) := by
  refine Journal.calm_of_entries ?_
  rcases h.notices with ⟨mode, aborted, -, hnotice⟩ | ⟨-, hnone⟩
  · cases mode <;> simp [hnotice, Plan.scanNotice, Entry.isCalm]
  · simp [hnone, Entry.isCalm]

theorem Sound.begin (h : u.Sound chip left muted) (hpending : u.radio.pending = none)
    (hroute : route u.radio.state r.operation = .accept destination)
    (hbuilt : Plan.Built u.radio.timing u.radio.attributes u.radio.scanMode r.operation plan)
    (hbegins : plan.action.Begins chip.accepts u.radio.attributes progress)
    (hstatus : progress.action.status = .running) (id after : Nat) :
    (((u.launch (u.radio.transition r destination plan.action) plan.notices).hold
      (u.radio.transition r destination plan.action) progress).emit
        (.armTimeout id after)).Sound chip left muted := by
  obtain ⟨hsent, hleft, hpanel⟩ := h.panel hpending
  obtain ⟨hleft, helapses⟩ := List.append_eq_nil_iff.mp hleft
  have hcalm := launch_calm hbuilt (u.radio.transition r destination plan.action) u.radio
  have harm : Journal.Calm [.effect (.armTimeout id after)] :=
    Journal.calm_of_entries (by simp [Entry.isCalm])
  obtain ⟨hps, hpe, hpm⟩ := Journal.ofProgress_views u.radio.arrivals progress
  have hconducts := hbuilt.conducts hroute hpanel
  have hjournal : (((u.launch (u.radio.transition r destination plan.action) plan.notices).hold
      (u.radio.transition r destination plan.action) progress).emit (.armTimeout id after)).journal =
      u.journal ++ ((.begun (u.radio.transition r destination plan.action) u.radio ::
        plan.notices.map fun n ↦ .effect (.notify n)) ++
          (Journal.ofProgress u.radio.arrivals progress ++ [.effect (.armTimeout id after)])) := by
    simp
  cases hbegins with
  | empty => simp at hstatus
  | refused => simp at hstatus
  | @issued first rest hcommands haccepted =>
      rw [hcommands] at hconducts
      refine .of_issue first (by rw [emit_radio, hold_radio]) rfl
        (fun hstate ↦ ?_) (fun hstate ↦ ?_) hleft ?_ ?_ (by simp [hcommands]) ?_
      · have hstate' : u.radio.state = .invalid := hstate
        simp [hstate', route] at hroute
      · have hstate' : u.radio.state = .error := hstate
        simp [hstate', route] at hroute
      · rw [hjournal, Journal.sent_append, Journal.sent_append, Journal.sent_append, hsent,
          hcalm.sent, hps, harm.sent]
        cases hcall : first.call <;> simp [Progress.sent, Exchange.sent, hcall]
      · rw [hjournal, Journal.elapses_append, Journal.elapses_append, Journal.elapses_append,
          helapses, hcalm.elapses, hpe, harm.elapses]
        cases hdelay : first.delayMs <;> simp [Progress.delays, Exchange.delay, hdelay]
      · rw [hjournal, Journal.muted_append, Journal.muted_append, Journal.muted_append, hcalm.muted,
          hpm, harm.muted]
        simpa [hcommands] using hconducts

theorem Sound.flash (h : u.Sound chip left muted) (hpending : u.radio.pending = none)
    (hroute : route u.radio.state r.operation = .accept destination)
    (hbuilt : Plan.Built u.radio.timing u.radio.attributes u.radio.scanMode r.operation plan)
    (hbegins : plan.action.Begins chip.accepts u.radio.attributes progress)
    (hstatus : progress.action.status.isTerminal = true) :
    ((u.launch (u.radio.transition r destination plan.action) plan.notices).settle
      (u.radio.transition r destination plan.action) progress false false).Sound chip left
        muted := by
  obtain ⟨hsent, hleft, hpanel⟩ := h.panel hpending
  have hcalm := launch_calm hbuilt (u.radio.transition r destination plan.action) u.radio
  have hconducts := hbuilt.conducts hroute hpanel
  cases hbegins with
  | issued => simp [Status.isTerminal] at hstatus
  | refused hcommands haccepted =>
      rw [hcommands] at hconducts
      simp [(Chip.issue_ok hconducts.1).1] at haccepted
  | empty hcommands hhook =>
      rw [hcommands] at hconducts
      refine .of_settle ?_ rfl rfl ?_ ?_
      · rw [launch_journal, Journal.sent_append, hsent, hcalm.sent]
        rfl
      · rw [launch_journal, Journal.elapses_append, hcalm.elapses, List.append_nil]
        exact hleft
      · rw [launch_journal, Journal.muted_append, hcalm.muted]
        exact hconducts

end

theorem Sound.ready (h : t.Sound chip left muted) (hinvalid : t.radio.state = .invalid) :
    (t.enter .idle).Sound chip left muted := by
  obtain ⟨hcs, hce, hcm⟩ := Journal.ofChange_views t.radio.state .idle
  have hpoll := Journal.calm_ofPoll .idle t.radio.generation t.radio.timing.pollInterval
  have hsent : (t.enter .idle).journal.sent = t.journal.sent := by
    rw [enter_journal, Journal.sent_append, Journal.sent_append, hcs, hpoll.sent]
    simp
  have helapses : (t.enter .idle).journal.elapses = t.journal.elapses := by
    rw [enter_journal, Journal.elapses_append, Journal.elapses_append, hce, hpoll.elapses]
    simp
  refine ⟨?_, by simpa only [enter_radio, hsent] using h.quiet, by simpa only [hsent] using h.taken⟩
  cases h.circuit with
  | waiting _ _ hvalid => exact (hvalid hinvalid).elim
  | resting hnone hinFlight hpanel =>
      simp only [Turn.circuit] at hnone hinFlight hpanel
      rw [hinvalid] at hpanel
      refine .resting ?_ ?_ ?_
      · simpa only [Turn.circuit, enter_radio] using hnone
      · simpa only [Turn.circuit, hsent, helapses] using hinFlight
      · simp only [Turn.circuit, hsent, enter_radio]
        exact hpanel

/-! ## Moves -/

theorem Move.sound (hmove : Move chip.accepts e t u) (h : t.Sound chip left muted)
    (hcallback : ∀ callback, e ≠ some (.callback callback))
    (htimeout : ∀ p, t.radio.pending = some p → e ≠ some (.timeout p.id)) :
    u.Sound chip left muted := by
  cases hmove with
  | ready hinvalid => exact h.ready hinvalid
  | arrive r =>
      exact h.congr (Journal.calm_of_entries (by simp [Entry.isCalm])) (enqueue_journal ..) rfl rfl
  | decline htaken =>
      exact (htaken.sound h).congr (Journal.calm_ofReport _ _) (report_journal ..)
        (by rw [report_radio]) (by rw [report_radio])
  | begin htaken hroute hplan hbegins hstatus =>
      exact (htaken.sound h).begin htaken.pending hroute (Plan.built_of_build hplan) hbegins hstatus
        _ _
  | flash htaken hroute hplan hbegins hstatus =>
      exact (htaken.sound h).flash htaken.pending hroute (Plan.built_of_build hplan) hbegins hstatus
  | advance => exact (hcallback _ rfl).elim
  | finish => exact (hcallback _ rfl).elim
  | expire hpending => exact (htimeout _ hpending rfl).elim

section

variable {c : Circuit} {p : Pending} {command : Command} {callback : Callback} {progress : Progress}

/-- After an answer that lets the transition go on, the next command is the one that waits. -/
theorem sound_of_advance (hsource : p.source = c.receiver.radio.state)
    (hinvalid : c.receiver.radio.state ≠ .invalid) (herror : c.receiver.radio.state ≠ .error)
    (hexpects : c.Expects muted p command callback)
    (hadvances : p.action.Advances c.receiver.chip.accepts callback c.receiver.radio.attributes
      progress) (hstatus : progress.action.status = .running) (hleft : left = []) :
    (Turn.hold { radio := c.receiver.radio } p progress).Sound c.receiver.chip left muted := by
  have hindex := (List.getElem?_eq_some_iff.mp hexpects.current).1
  cases hadvances with
  | stopped hcommand hcomplete hverdict =>
      have hterminal := Action.verdict_status_isTerminal hverdict
      simp only at hstatus
      simp [hstatus, Status.isTerminal] at hterminal
  | finished => simp at hstatus
  | refused => simp at hstatus
  | @issued _ completed next hcommand hcomplete hnext haccepted =>
      obtain ⟨hps, hpe, hpm⟩ := Journal.ofProgress_views c.receiver.radio.arrivals
        { action := { p.action with
            commands := p.action.commands.set p.action.index completed
            index := p.action.index + 1 }
          attributes := c.receiver.radio.attributes
          exchanges := [.answered p.action.index completed callback .success,
            .issued (p.action.index + 1) next true] }
      refine .of_issue next (by rw [hold_radio]) (by rw [hold_radio]; exact hsource)
        (by rw [hold_radio]; exact hinvalid) (by rw [hold_radio]; exact herror) hleft ?_ ?_ ?_ ?_
      · rw [hold_journal, List.nil_append, hps]
        cases hcall : next.call <;>
          simp [Progress.sent, List.filterMap_cons, Exchange.sent, hcall]
      · rw [hold_journal, List.nil_append, hpe]
        cases hdelay : next.delayMs <;>
          simp [Progress.delays, List.filterMap_cons, Exchange.delay, hdelay]
      · simpa using hnext
      · have hdrop := hexpects.rest
        rw [List.drop_eq_getElem_cons (List.getElem?_eq_some_iff.mp hnext).1,
          (List.getElem?_eq_some_iff.mp hnext).2] at hdrop
        rw [hold_journal, List.nil_append, hpm]
        dsimp only
        rw [List.drop_set_of_lt (by omega)]
        simpa using hdrop

/-- After an answer that ends the transition, nothing is on its way. -/
theorem sound_of_finish (hrunning : p.action.status = .running)
    (hsource : p.source = c.receiver.radio.state) (hexpects : c.Expects muted p command callback)
    (hadvances : p.action.Advances c.receiver.chip.accepts callback c.receiver.radio.attributes
      progress) (hstatus : progress.action.status.isTerminal = true) (hleft : left = []) :
    (Turn.settle { radio := c.receiver.radio } p progress true false).Sound c.receiver.chip left
      muted := by
  cases hadvances with
  | issued => simp [hrunning, Status.isTerminal] at hstatus
  | refused hcommand hcomplete hnext haccepted =>
      -- What is left of the plan is conducted, so the next command would have been taken.
      have hdrop := hexpects.rest
      rw [List.drop_eq_getElem_cons (List.getElem?_eq_some_iff.mp hnext).1,
        (List.getElem?_eq_some_iff.mp hnext).2] at hdrop
      simp [(Chip.issue_ok hdrop.1).1] at haccepted
  | @stopped _ completed verdict _ _ hcommand hcomplete hverdict =>
      cases hexpects.current.symm.trans hcommand
      obtain ⟨hnotError, hread⟩ := hexpects.answered _ _ _ hcomplete
      refine .of_settle rfl rfl rfl (by rw [hleft]; rfl) ?_
      have htarget : (resolution
          { p with action := { p.action with
              commands := p.action.commands.set p.action.index completed
              status := verdict.status } } false).1 = c.receiver.radio.state := by
        cases verdict <;> first | contradiction | exact hsource
      rw [htarget, mutes_self]
      exact hexpects.stay (hread hverdict)
  | finished hcommand hcomplete hlast =>
      have hdrop := hexpects.rest
      rw [List.drop_eq_nil_of_le (by omega)] at hdrop
      exact .of_settle rfl rfl rfl (by rw [hleft]; rfl) hdrop

theorem sound_of_answer (h : c.Sound muted) (hoffers : callback ∈ c.inFlight)
    (hsteady : c.receiver.radio.Steady)
    (hmove : Move c.receiver.chip.accepts (some (.callback callback))
      { radio := c.receiver.radio } u) :
    u.Sound c.receiver.chip (c.left (.callback callback)) muted := by
  have hnone : c.receiver.radio.pending ≠ none := by
    intro hnone
    cases hmove with
    | decline htaken | begin htaken | flash htaken => cases htaken
    | advance hpending | finish hpending => simp [hnone] at hpending
  cases h with
  | resting hpending => exact (hnone hpending).elim
  | @waiting p command answer hpending hsource hinvalid herror hexpects =>
      rw [hexpects.inFlight, List.mem_singleton] at hoffers
      subst hoffers
      have hleft : c.left (.callback callback) = [] := by
        simp [Circuit.left, hexpects.inFlight]
      cases hmove with
      | decline htaken | begin htaken | flash htaken => cases htaken
      | advance hpending' hadvances hstatus =>
          cases hpending.symm.trans hpending'
          exact sound_of_advance hsource hinvalid herror hexpects hadvances hstatus hleft
      | finish hpending' hadvances hstatus =>
          cases hpending.symm.trans hpending'
          exact sound_of_finish (hsteady p hpending) hsource hexpects hadvances hstatus hleft

end

/-! ## Failure -/

structure Failed (t : Turn) : Prop where
  state : t.radio.state = .error
  pending : t.radio.pending = none
  sent : t.journal.sent = []

theorem Taken.failed {r : Request} (htaken : Taken e t r u) (h : t.Failed) : u.Failed := by
  cases htaken with
  | queued =>
      refine ⟨h.state, h.pending, ?_⟩
      rw [take_journal, Journal.sent_append, h.sent]
      rfl
  | poll => exact h

theorem Move.failed (hmove : Move accepts e t u) (h : t.Failed) : u.Failed := by
  cases hmove with
  | ready hinvalid => simp [h.state] at hinvalid
  | arrive r =>
      refine ⟨h.state, h.pending, ?_⟩
      rw [enqueue_journal, Journal.sent_append, h.sent]
      rfl
  | decline htaken =>
      have hu := htaken.failed h
      refine ⟨by simpa using hu.state, by simpa using hu.pending, ?_⟩
      rw [report_journal, Journal.sent_append, hu.sent, (Journal.calm_ofReport _ _).sent]
      rfl
  | begin htaken hroute | flash htaken hroute => simp [(htaken.failed h).state, route] at hroute
  | advance hpending | finish hpending | expire hpending => simp [h.pending] at hpending

theorem failed_of_timeout {id : Nat} (hsent : t.journal.sent = [])
    (hmove : Move accepts (some (.timeout id)) t u) : u.Failed := by
  cases hmove with
  | decline htaken | begin htaken | flash htaken => cases htaken
  | expire hpending' =>
      refine ⟨by simp [Controller.resolved, resolution], by simp [Controller.resolved], ?_⟩
      rw [settle_journal, Journal.sent_append, Journal.sent_append, hsent,
        (Journal.ofProgress_views _ _).1, (Journal.ofEnd_views _ _ _ _).1]
      rfl

end Turn

/-! ## Steps -/

namespace Circuit

variable {c d : Circuit} {event : Event} {journal : Journal} {muted : Bool}

theorem accepts_eq (chip : Chip) : (fun call ↦ true && chip.accepts call) = chip.accepts := by
  funext call
  rw [Bool.true_and]

theorem step_of_turn {turn : Turn}
    (h : c.receiver.radio.step c.receiver.chip.accepts event = .ok turn) :
    c.step event = .ok (turn.circuit c.receiver.chip (c.left event), turn.journal) := by
  rw [step, Receiver.step, accepts_eq, h]
  rfl

theorem step_ok (h : c.step event = .ok (d, journal)) :
    ∃ turn, c.receiver.radio.step c.receiver.chip.accepts event = .ok turn ∧
      d = turn.circuit c.receiver.chip (c.left event) ∧ journal = turn.journal := by
  rw [step] at h
  split at h
  next => simp at h
  next reaction hreaction =>
    obtain ⟨turn, hturn, rfl⟩ := Receiver.step_ok hreaction
    rw [accepts_eq] at hturn
    cases h
    exact ⟨turn, hturn, rfl, rfl⟩

/-- A circuit that has failed. -/
structure Failed (c : Circuit) : Prop where
  state : c.receiver.radio.state = .error
  pending : c.receiver.radio.pending = none

theorem sound_start (c : Circuit) (h : c.Sound muted) :
    Turn.Sound { radio := c.receiver.radio } c.receiver.chip c.inFlight muted := by
  have hcircuit : Turn.circuit { radio := c.receiver.radio } c.receiver.chip c.inFlight = c := by
    simp [Turn.circuit, Chip.serve, Journal.elapses]
  refine ⟨?_, fun _ ↦ rfl, by simp⟩
  rw [hcircuit]
  exact h

theorem Failed.step (h : c.Failed) (hsteady : c.receiver.radio.Steady)
    (hstep : c.step event = .ok (d, journal)) : d.Failed ∧ journal.sent = [] := by
  obtain ⟨turn, hturn, rfl, rfl⟩ := step_ok hstep
  have hstart : Turn.Failed { radio := c.receiver.radio } := ⟨h.state, h.pending, rfl⟩
  have hend : turn.Failed := by
    rcases Controller.step_moves hsteady hturn with ⟨-, -, rfl⟩ | ⟨v, hcause, hmoves, -⟩
    · exact hstart
    · have hv : v.Failed := by
        rcases hcause with ⟨-, rfl⟩ | hmove
        · exact hstart
        · exact hmove.failed hstart
      exact Turn.keeps_of_moves (Q := Turn.Failed) (fun _ _ ht hmove ↦ hmove.failed ht) hmoves hv
  exact ⟨⟨hend.state, hend.pending⟩, hend.sent⟩

/-- What an event causes leaves a circuit sound, unless it times out the transition in flight. -/
theorem Sound.cause (h : c.Sound muted) (hsteady : c.receiver.radio.Steady)
    (hoffers : c.Offers event) {v : Turn}
    (hcause : c.receiver.radio.Ignores event ∧ v = { radio := c.receiver.radio } ∨
      Turn.Move c.receiver.chip.accepts (some event) { radio := c.receiver.radio } v) :
    v.Sound c.receiver.chip (c.left event) muted ∨
      v.Failed ∧ ∃ p, c.receiver.radio.pending = some p ∧ event = .timeout p.id := by
  have hstart := sound_start c h
  by_cases htimeout : ∃ p, c.receiver.radio.pending = some p ∧ event = .timeout p.id
  · obtain ⟨p, hpending, rfl⟩ := htimeout
    refine .inr ⟨?_, p, hpending, rfl⟩
    rcases hcause with ⟨hignores, -⟩ | hmove
    · exact (hignores p hpending rfl).elim
    · exact Turn.failed_of_timeout rfl hmove
  · refine .inl ?_
    rcases hcause with ⟨hignores, rfl⟩ | hmove
    · cases event with
      | callback callback =>
          cases h with
          | resting _ hinFlight => simp [Offers, hinFlight] at hoffers
          | waiting hpending => simp [Controller.Ignores, hpending] at hignores
      | _ => exact hstart
    · cases event with
      | callback callback => exact Turn.sound_of_answer h hoffers hsteady hmove
      | _ => exact hmove.sound hstart (by simp) fun p hp heq ↦
          htimeout ⟨p, hp, Option.some.inj heq⟩

/-- A step keeps a circuit sound, unless it times out the transition in flight. -/
theorem Sound.step (h : c.Sound muted) (hsteady : c.receiver.radio.Steady) (hoffers : c.Offers event)
    (hstep : c.step event = .ok (d, journal)) :
    (d.Sound (journal.muted muted) ∨
        d.Failed ∧ ∃ p, c.receiver.radio.pending = some p ∧ event = .timeout p.id) ∧
      ∀ x ∈ journal.sent, x.2 = true := by
  obtain ⟨turn, hturn, rfl, rfl⟩ := step_ok hstep
  rcases Controller.step_moves hsteady hturn with ⟨rfl, -, rfl⟩ | ⟨v, hcause, hmoves, -⟩
  · have hstart := sound_start c h
    exact ⟨.inl hstart.circuit, hstart.taken⟩
  · rcases h.cause hsteady hoffers hcause with hv | ⟨hv, htimeout⟩
    · have hend : turn.Sound c.receiver.chip (c.left event) muted :=
        Turn.keeps_of_moves (Q := fun t ↦ t.Sound c.receiver.chip _ muted)
          (fun _ _ ht hmove ↦ hmove.sound ht (by simp) (by simp)) hmoves hv
      exact ⟨.inl hend.circuit, hend.taken⟩
    · have hend : turn.Failed :=
        Turn.keeps_of_moves (Q := Turn.Failed) (fun _ _ ht hmove ↦ hmove.failed ht) hmoves hv
      exact ⟨.inr ⟨⟨hend.state, hend.pending⟩, htimeout⟩, by simp [hend.sent]⟩

theorem step_steady (hsteady : c.receiver.radio.Steady) (h : c.step event = .ok (d, journal)) :
    d.receiver.radio.Steady := by
  obtain ⟨turn, hturn, rfl, rfl⟩ := step_ok h
  exact Controller.step_steady hsteady hturn

variable {timing : Timing} {settings : ChipSettings} {events : List Event} {history : Journal}

theorem Reaches.steady (h : Reaches timing settings events history c) :
    c.receiver.radio.Steady := by
  induction h with
  | start => exact Controller.initial_steady timing
  | step _ _ hstep ih => exact step_steady ih hstep

/-- The controller of a circuit has gone through a run of the events, with the answers of the
chip. -/
theorem Reaches.run_eq (h : Reaches timing settings events history c) :
    ∃ script : List (Event × (Call → Bool)), script.map Prod.fst = events ∧
      Controller.run (.initial timing) script =
        .ok { radio := c.receiver.radio, journal := history } := by
  induction h with
  | start => exact ⟨[], rfl, rfl⟩
  | @step _ _ _ _ _ event _ _ hstep ih =>
      obtain ⟨script, rfl, hrun⟩ := ih
      obtain ⟨turn, hturn, rfl, rfl⟩ := step_ok hstep
      exact ⟨script ++ [(event, _)], by simp, Controller.run_snoc hrun hturn⟩

/-- Whatever happens to it, a circuit is sound until a timeout has made it fail. -/
theorem Reaches.sound_or_failed (h : Reaches timing settings events history c) :
    c.Sound (history.muted false) ∨ c.Failed := by
  induction h with
  | start => exact .inl (.resting rfl rfl rfl)
  | step h hoffers hstep ih =>
      rcases ih with hsound | hfailed
      · rw [Journal.muted_append]
        exact (hsound.step h.steady hoffers hstep).1.imp id And.left
      · exact .inr (hfailed.step h.steady hstep).1

end Circuit

end FmTuner
