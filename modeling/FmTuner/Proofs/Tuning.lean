import FmTuner.Proofs.AttributeLog
import FmTuner.Proofs.Searching
import FmTuner.Proofs.StartedBands

/-!
# What the chip is tuned to

A frequency that the radio knows was set, or it was read back from a chip that has searched on its
own. The end of a scan tunes the chip to it once more, and nothing else that a started or paused
radio does goes near the tuner. Hence such a radio, at rest, is tuned to what it knows.
-/

namespace FmTuner

/-- A started or paused radio stays on its channel. -/
def RadioState.isTuned : RadioState → Bool
  | .started | .paused => true
  | _ => false

theorem RadioState.isOn_of_isTuned {state : RadioState} (h : state.isTuned = true) :
    state.isOn = true := by
  cases state <;> first | rfl | simp [isTuned] at h

/-- Whether an operation, where it is accepted, takes the radio off its channel. -/
def Operation.leavesChannel : Operation → Bool
  | .reset | .scanUp | .scanDown | .fullScan | .scanStep | .pollScan _ | .stopScan => true
  | _ => false

/-- Other than by a start or the end of a scan, a radio gets to a channel only from one. -/
theorem RadioState.isTuned_of_accept {state destination : RadioState} {operation : Operation}
    (hroute : route state operation = .accept destination) (htuned : destination.isTuned = true)
    (hstart : operation.isStart = false)
    (hdone : ∀ mode aborted, operation ≠ .scanDone mode aborted) :
    state.isTuned = true ∧ operation.leavesChannel = false := by
  cases state <;> cases operation <;>
    simp_all [route, Route.whenIdle, Route.whenOn, Route.whenScanning, Operation.setsProperty,
      Operation.isStart, isTuned, Operation.leavesChannel]
  all_goals
    subst hroute
    simp at htuned

/-! ## Commands that were taken -/

namespace Chip

variable {c d : Chip} {f : Freq}

/-- The chip after a command that the link took. -/
def carry (c : Chip) (command : Command) : Chip :=
  (c.serve (command.call.map (·, true)).toList).1

theorem serve_append (c : Chip) (xs ys : List (Call × Bool)) :
    (c.serve (xs ++ ys)).1 = ((c.serve xs).1.serve ys).1 := by
  induction xs generalizing c with
  | nil => rfl
  | cons x rest ih =>
      obtain ⟨call, accepted⟩ := x
      simp only [List.cons_append, serve]
      split
      next d answer hcall => exact ih d
      next => exact ih c

theorem serve_ofRounds (c : Chip) (rounds : List Round) :
    (c.serve ((Exchange.ofRounds rounds).filterMap Exchange.sent)).1 =
      (rounds.map Round.command).foldl carry c := by
  induction rounds using List.reverseRecOn with
  | nil => rfl
  | append_singleton rounds r ih =>
      have hlast : [Exchange.issued rounds.length r.command true,
          .answered rounds.length r.completed r.callback .success].filterMap Exchange.sent =
            (r.command.call.map (·, true)).toList := by
        rw [← Exchange.sent_issued rounds.length]
        rfl
      rw [Exchange.ofRounds_snoc, List.filterMap_append, serve_append, ih, hlast]
      simp [carry]

theorem Obeys.foldl_carry {commands : List Command} (h : c.Obeys commands d) :
    commands.foldl carry c = d := by
  induction h with
  | nil => rfl
  | @cons c d _ command _ _ hissues _ _ ih =>
      have hcarry : c.carry command = d := hissues.served.2.1
      rw [List.foldl_cons, hcarry, ih]

/-- The chip is tuned to a frequency, from which it searches on. -/
structure TunedTo (c : Chip) (f : Freq) : Prop where
  tuned : c.tuned = f
  unwritten : c.frequencyWritten = false

theorem TunedTo.carry_writeByte (h : c.TunedTo f) (hpowered : c.powered = true) {register : UInt8}
    (hregister : register.toNat < 32) (hfrequency : register ≠ Register.frequency)
    (hmode : register ≠ Register.searchTuneMode) (value : UInt8) :
    ([Command.writeByte register value].foldl carry c).TunedTo f := by
  have hobeys : c.Obeys [Command.writeByte register value]
      (c.put register hregister value.toUInt16) :=
    .writeByte hpowered (write_plain hregister _ hfrequency hmode) (.nil _)
  rw [hobeys.foldl_carry]
  exact ⟨h.tuned, h.unwritten⟩

theorem tunedTo_tuneCommands (hpowered : c.powered = true) (hf : f.InRegister) :
    ((Plan.tuneCommands f).foldl carry c).TunedTo f := by
  obtain ⟨d, hobeys, -, htuned, hunwritten⟩ := obeys_tuneCommands hpowered hf
  rw [hobeys.foldl_carry]
  exact ⟨htuned, hunwritten⟩

/-- In whatever direction the chip searches next, only what lies strictly beyond `f` is ahead. -/
def SearchesBeyond (c : Chip) (f : Freq) : Prop :=
  ∀ up threshold, ∃ d, c.Obeys (Plan.searchCommands up threshold) d ∧
    c.Searched (c.searchFor up threshold) d ∧
      ∀ s, (c.searchFor up threshold).ahead s = true ↔
        if up then f.khz < s.khz else s.khz < f.khz

theorem TunedTo.searchesBeyond (h : c.TunedTo f) (hpowered : c.powered = true) :
    c.SearchesBeyond f := by
  intro up threshold
  obtain ⟨d, hobeys, hsearched⟩ := obeys_searchCommands hpowered up threshold
  refine ⟨d, hobeys, hsearched, fun s ↦ ?_⟩
  cases up <;> simp [Search.ahead, searchFor, h.tuned, h.unwritten]

/-- A chip whose radio stays on its channel is tuned to the frequency that the radio knows. -/
def OnChannel (c : Chip) (state : RadioState) (a : Attributes) : Prop :=
  state.isTuned = true → ∀ f, a.frequency = some f → c.TunedTo f

end Chip

/-- The frequency register can express every channel of the band. -/
def Band.InRegister (b : Band) : Prop := 64000 ≤ b.min.khz ∧ b.max.khz ≤ 129535

instance (b : Band) : Decidable b.InRegister := inferInstanceAs (Decidable (_ ∧ _))

theorem Band.InRegister.of_isValid {b : Band} (h : b.InRegister) {f : Freq}
    (hf : b.isValid f = true) : f.InRegister := by
  obtain ⟨hmin, hmax, -⟩ := Band.isValid_iff.mp hf
  exact ⟨h.1.trans hmin, hmax.trans h.2⟩

namespace Plan

open Command Register

variable {timing : Timing} {a : Attributes} {scanMode : Option ScanMode} {plan : Plan}
  {p : Pending} {state destination : RadioState} {c : Chip}

/-- The commands of an operation take the chip to the channel that its end leaves. -/
theorem Built.carries_channel (h : Built timing a scanMode p.action.operation plan)
    (hroute : route state p.action.operation = .accept destination) (ha : a.OnGrid)
    (hpowered : state.isOn = true → c.powered = true)
    (hc : a.band.InRegister → c.OnChannel state a) (hband : (a.record p).band.InRegister) :
    (plan.action.commands.foldl Chip.carry c).OnChannel destination (a.record p) := by
  intro htuned f hf
  generalize hoperation : p.action.operation = operation at h hroute
  rw [Attributes.record, hoperation] at hf hband
  have hstays := RadioState.isTuned_of_accept hroute htuned
  cases h with
  | start => simp at hf
  | pause | resume | setForceMono =>
      have hfrom := (hstays rfl (by simp)).1
      have hpower := hpowered (RadioState.isOn_of_isTuned hfrom)
      exact (hc hband hfrom f hf).carry_writeByte hpower (by decide) (by decide) (by decide) _
  | setThreshold | setAutoAfSwitch | setAutoTaSwitch =>
      exact hc hband (hstays rfl (by simp)).1 f hf
  | @setFrequency g hvalid =>
      obtain rfl : g = f := by simpa using hf
      have hpower := hpowered (RadioState.isOn_of_accept hroute rfl)
      exact Chip.tunedTo_tuneCommands hpower (hband.of_isValid hvalid)
  | scanDone =>
      -- Wherever its searches have led, the end of a scan tunes the chip to what is known.
      have hpower := hpowered (RadioState.isOn_of_accept hroute rfl)
      have hknown : a.frequency = some f := hf
      simp only [ofCommands, hknown, Option.map_some, Option.getD_some]
      exact Chip.tunedTo_tuneCommands hpower (hband.of_isValid (ha f hknown))
  | _ =>
      have hleaves := (hstays rfl (by simp)).2
      simp [Operation.leavesChannel] at hleaves

end Plan

/-! ## Journals -/

namespace Journal

variable {settings : ChipSettings} {j k : Journal}

def chip (settings : ChipSettings) (j : Journal) : Chip :=
  ((Chip.ofSettings settings).serve j.sent).1

theorem chip_append (j k : Journal) :
    (j ++ k).chip settings = ((j.chip settings).serve k.sent).1 := by
  rw [chip, sent_append, Chip.serve_append, chip]

theorem chip_append_of_sent (h : k.sent = []) : (j ++ k).chip settings = j.chip settings := by
  rw [chip_append, h]
  rfl

theorem chip_setup (settings : ChipSettings) (j : Journal) : (j.chip settings).setup = j.setup :=
  Chip.serve_setup _ _

theorem sent_eq (j : Journal) : j.sent = j.exchanges.filterMap Exchange.sent := by
  rw [sent, exchanges, List.filterMap_filterMap]
  refine List.filterMap_congr fun e _ ↦ ?_
  cases e <;> rfl

end Journal

/-- A transition that is done has taken the chip through all the commands of its plan. -/
theorem Account.Completed.chip {x : Account} {action : Action} {a : Attributes}
    {rounds : List Round} (h : x.Completed action a rounds) (settings : ChipSettings)
    (before : Journal) :
    (before ++ x.entries).chip settings =
      x.plan.action.commands.foldl Chip.carry (before.chip settings) := by
  have hsent : x.entries.sent = x.during.sent := rfl
  rw [Journal.chip_append, hsent, Journal.sent_eq, h.exchanges, Chip.serve_ofRounds, h.commands]

namespace Journal

/-- Where a transition begins, the chip is on the channel of the radio and has power if the radio is
on. -/
def FindsOnChannel (settings : ChipSettings) (earlier : Journal) : Entry → Prop
  | .begun _ c =>
      (c.attributes.band.InRegister →
        (earlier.chip settings).OnChannel c.state c.attributes) ∧
        (c.state.isOn = true → (earlier.chip settings).powered = true)
  | _ => True

theorem findsOnChannel_append {settings : ChipSettings} {j k : Journal}
    (hj : j.Each (FindsOnChannel settings)) (hk : ∀ e ∈ k, e.isMilestone = false) :
    (j ++ k).Each (FindsOnChannel settings) := by
  refine each_append_of_forall hj fun e he earlier ↦ ?_
  have hquiet := hk e he
  cases e with
  | begun => simp [Entry.isMilestone] at hquiet
  | _ => trivial

end Journal

namespace Turn

/-- While nothing is in flight the chip is on the channel of the radio, and it was so wherever a
transition began. -/
structure Tunes (settings : ChipSettings) (t : Turn) : Prop where
  rest : t.radio.pending = none → t.radio.attributes.band.InRegister →
    (t.journal.chip settings).OnChannel t.radio.state t.radio.attributes
  begun : t.journal.Each (Journal.FindsOnChannel settings)

variable {settings : ChipSettings} {accepts : Call → Bool} {e : Option Event} {t u : Turn}
  {p : Pending} {x : Account} {before k : Journal} {progress : Progress}

theorem Tunes.extend (h : t.Tunes settings) (hjournal : u.journal = t.journal ++ k)
    (hk : ∀ e ∈ k, e.isMilestone = false) (hsent : k.sent = [])
    (hpending : u.radio.pending = t.radio.pending) (hstate : u.radio.state = t.radio.state)
    (hattributes : u.radio.attributes = t.radio.attributes) : u.Tunes settings := by
  constructor
  · rw [hjournal, Journal.chip_append_of_sent hsent, hpending, hstate, hattributes]
    exact h.rest
  · rw [hjournal]
    exact Journal.findsOnChannel_append h.begun hk

theorem Taken.tunes {r : Request} (htaken : Taken e t r u) (h : t.Tunes settings) :
    u.Tunes settings := by
  cases htaken with
  | queued =>
      constructor
      · rw [take_journal, Journal.chip_append_of_sent rfl]
        exact h.rest
      · rw [take_journal]
        exact Journal.each_snoc h.begun trivial
  | poll => exact h

theorem Tunes.launch (h : t.Tunes settings) (hmirrored : t.Mirrored)
    (hpending : t.radio.pending = none) (p : Pending) (notices : List Notification) :
    (t.launch p notices).journal.Each (Journal.FindsOnChannel settings) := by
  have hpowered : t.radio.state.isOn = true → (t.journal.chip settings).powered = true := by
    intro hon
    have hsetup := (Journal.chip_setup settings t.journal).trans (hmirrored.rest hpending hon)
    exact congrArg Setup.powered hsetup
  rw [launch_journal, List.append_cons]
  exact Journal.findsOnChannel_append (Journal.each_snoc h.begun ⟨h.rest hpending, hpowered⟩)
    (by simp [Entry.isMilestone])

theorem tunes_hold (hbegun : t.journal.Each (Journal.FindsOnChannel settings)) (p : Pending)
    (progress : Progress) : (t.hold p progress).Tunes settings := by
  refine ⟨by simp, ?_⟩
  rw [hold_journal]
  exact Journal.findsOnChannel_append hbegun (Journal.not_milestone_ofProgress _ _)

theorem tunes_settle (hbegun : t.journal.Each (Journal.FindsOnChannel settings))
    (hrecords : t.Records p x before) (hscoped : t.radio.Scoped)
    (hgrid : t.radio.attributes.OnGrid)
    (hsame : progress.action.operation = p.action.operation ∧ progress.action.hook = p.action.hook)
    (hends : (x.extend (Journal.ofProgress t.radio.arrivals progress)).Ends progress)
    {timedOut : Bool} (hlate : timedOut = true → progress.action.status = .error)
    (hundone : progress.action.status ≠ .done →
      (resolution { p with action := progress.action } timedOut).1.isTuned = false)
    (armed : Bool) : (t.settle p progress armed timedOut).Tunes settings := by
  obtain ⟨k, hk, hclosed, hjournal⟩ := hrecords.settle hscoped hsame hends hlate armed
  have hvalid := hrecords.valid.extend hk
  have hbefore : (x.start.attributes.band.InRegister →
        (before.chip settings).OnChannel x.start.state x.start.attributes) ∧
      (x.start.state.isOn = true → (before.chip settings).powered = true) :=
    hbegun before (.begun x.pending x.start) x.during hrecords.journal
  have hentries : t.journal ++ k = before ++ (x.extend k).entries := by
    rw [hrecords.journal, List.append_assoc]
    rfl
  rw [hrecords.attributes] at hgrid
  constructor
  · intro _ hband htuned
    by_cases hdone : progress.action.status = .done
    · -- The chip has gone through the plan, from where the transition has found it.
      obtain ⟨rounds, hcompleted⟩ := hclosed.done hdone
      have hbuilt := Plan.built_of_build hvalid.plan
      have hroute := hvalid.route
      rw [← hclosed.operation] at hbuilt hroute
      have hdestination : (t.settle p progress armed timedOut).radio.state = x.destination := by
        have hsource := congrArg Pending.destination hclosed.same
        rw [hclosed.state, resolution, hdone]
        exact hsource
      have hchip : (t.settle p progress armed timedOut).journal.chip settings =
          x.plan.action.commands.foldl Chip.carry (before.chip settings) := by
        rw [hjournal, List.append_cons,
          Journal.chip_append_of_sent (Journal.calm_ofReport _ _).sent,
          Journal.chip_append_of_sent rfl, hentries]
        exact hcompleted.chip settings before
      rw [hclosed.attributes hvalid, if_pos hdone] at hband ⊢
      rw [hchip]
      rw [hdestination] at htuned
      exact hbuilt.carries_channel hroute hgrid hbefore.2 hbefore.1 hband htuned
    · rw [hclosed.state, hundone hdone] at htuned
      cases htuned
  · rw [hjournal, List.append_cons]
    exact Journal.each_report (Journal.each_snoc (Journal.findsOnChannel_append hbegun hk) trivial)
      fun _ _ ↦ trivial

/-- Only a poll may end undone without failing, and leaves the radio scanning. -/
theorem untuned_of_undone (hplanned : t.radio.Planned) (hrouted : t.radio.Routed)
    (hsteady : t.radio.Steady) {callback : Callback} (hpending : t.radio.pending = some p)
    (hadvances : p.action.Advances accepts callback t.radio.attributes progress)
    (hstatus : progress.action.status.isTerminal = true)
    (hundone : progress.action.status ≠ .done) :
    (resolution { p with action := progress.action } false).1.isTuned = false := by
  cases hadvances with
  | issued => simp [hsteady p hpending, Status.isTerminal] at hstatus
  | finished => contradiction
  | refused => rfl
  | @stopped command completed verdict b followups hcommand hcomplete hverdict =>
      by_cases hread : command.isRead = true
      · obtain ⟨mode, hmode⟩ :=
          (hplanned p hpending).poll_of_read (List.mem_of_getElem? hcommand) hread
        obtain ⟨hsource, hroute⟩ := hrouted p hpending
        rw [hmode] at hroute
        have hscanning : p.source = .scanning :=
          hsource.trans (RadioState.scanning_of_accept hroute (.inr rfl)).1
        cases verdict with
        | success => contradiction
        | error => rfl
        | cancel | fail => exact congrArg RadioState.isTuned hscanning
      · rcases (Command.verdict_of_complete hcomplete).2 (by simpa using hread) with rfl | rfl
        · contradiction
        · rfl

structure Attuned (settings : ChipSettings) (t : Turn) : Prop where
  accounts : t.Accounts
  mirrored : t.Mirrored
  planned : t.radio.Planned
  routed : t.radio.Routed
  onGrid : t.radio.OnGrid
  tunes : t.Tunes settings

theorem Taken.tunes_launch {r : Request} (htaken : Taken e t r u) (h : t.Attuned settings)
    (p : Pending) (notices : List Notification) :
    (u.launch p notices).journal.Each (Journal.FindsOnChannel settings) :=
  (htaken.tunes h.tunes).launch (htaken.mirrored h.mirrored) htaken.pending p notices

theorem Move.tunes (hmove : Move accepts e t u) (h : t.Attuned settings)
    (hsteady : t.radio.Steady) : u.Tunes settings := by
  cases hmove with
  | ready =>
      refine ⟨fun _ _ htuned ↦ by simp [RadioState.isTuned] at htuned, ?_⟩
      rw [enter_journal, List.append_assoc]
      exact Journal.findsOnChannel_append h.tunes.begun (Journal.not_milestone_enter _ _ _ _)
  | arrive r =>
      exact h.tunes.extend (enqueue_journal ..) (by simp [Entry.isMilestone]) rfl rfl rfl rfl
  | @decline _ _ v r outcome htaken =>
      have hv := htaken.tunes h.tunes
      constructor
      · rw [report_journal, report_radio,
          Journal.chip_append_of_sent (Journal.calm_ofReport _ _).sent]
        exact hv.rest
      · rw [report_journal]
        exact Journal.each_report hv.begun fun _ _ ↦ trivial
  | begin htaken =>
      exact (tunes_hold (htaken.tunes_launch h _ _) _ _).extend (emit_journal ..)
        (by simp [Entry.isMilestone]) rfl rfl rfl rfl
  | @flash _ _ v _ _ _ _ htaken hroute hplan hbegins hstatus =>
      have hgrid : v.radio.attributes.OnGrid := htaken.attributes ▸ h.onGrid.attributes
      refine tunes_settle (htaken.tunes_launch h _ _) (htaken.records hroute hplan)
        (htaken.accounts_launch h.accounts).1 hgrid hbegins.same
        (Account.ends_of_begins (opened_exchanges ..) hbegins hstatus _) (by simp) ?_ false
      intro hundone
      cases hbegins with
      | empty => contradiction
      | refused => rfl
      | issued => simp [Status.isTerminal] at hstatus
  | advance => exact tunes_hold h.tunes.begun _ _
  | finish hpending hadvances hstatus =>
      obtain ⟨x, before, hrecords, hends⟩ := h.accounts.finish hpending hadvances hstatus
      exact tunes_settle h.tunes.begun hrecords h.accounts.scope h.onGrid.attributes
        hadvances.same hends (by simp)
        (untuned_of_undone h.planned h.routed hsteady hpending hadvances hstatus) true
  | expire hpending =>
      obtain ⟨x, before, hrecords, hends⟩ := h.accounts.expire hpending _
      exact tunes_settle h.tunes.begun hrecords h.accounts.scope h.onGrid.attributes
        ⟨rfl, rfl⟩ hends (fun _ ↦ rfl) (fun _ ↦ rfl) true

theorem Move.attuned (hmove : Move accepts e t u) (h : t.Attuned settings)
    (hsteady : t.radio.Steady) : u.Attuned settings where
  accounts := hmove.accounts h.accounts
  mirrored := hmove.mirrored h.mirrored h.planned hsteady
  planned := hmove.planned h.planned
  routed := hmove.routed h.routed
  onGrid := hmove.onGrid h.onGrid
  tunes := hmove.tunes h hsteady

end Turn

namespace Controller

variable {timing : Timing} {script : List (Event × (Call → Bool))} {t : Turn}

theorem initial_attuned (settings : ChipSettings) (timing : Timing) :
    Turn.Attuned settings { radio := initial timing } where
  accounts := initial_accounts timing
  mirrored := by refine ⟨?_, ?_, ?_⟩ <;> simp [initial, RadioState.isOn]
  planned := by simp [initial, Planned]
  routed := initial_routed timing
  onGrid := by refine ⟨fun f hf ↦ ?_, fun p hp ↦ ?_⟩ <;> simp [initial] at *
  tunes := by
    refine ⟨fun _ _ htuned ↦ by simp [initial, RadioState.isTuned] at htuned, ?_⟩
    intro before entry after hsplit
    simp at hsplit

theorem run_attuned (settings : ChipSettings) (h : (initial timing).run script = .ok t) :
    t.Attuned settings :=
  (run_induction (initial_attuned settings timing)
    (fun _ _ _ _ _ ht hsteady _ hmove ↦ hmove.attuned ht hsteady)
    (fun _ _ _ ht hsteady hmove ↦ hmove.attuned ht hsteady) h).1

theorem run_bands (hbands : ∀ x ∈ script, ∀ r b, x.1 = .request r → r.operation = .start b →
    b.InRegister) (h : (initial timing).run script = .ok t) : t.radio.Bands Band.InRegister := by
  have hinitial : (initial timing).Bands Band.InRegister := by
    refine ⟨?_, ?_, ?_⟩ <;> simp [initial, Band.InRegister, Band.europeUs]
  exact (run_induction (P := fun t ↦ t.radio.Bands Band.InRegister) hinitial
    (fun _ _ _ _ hmem ht _ _ hmove ↦ hmove.bands ht fun r b heq ↦
      hbands _ hmem r b (Option.some.inj heq))
    (fun _ _ _ ht _ hmove ↦ hmove.bands ht (by simp)) h).1

end Controller

/-! ## Circuits -/

namespace Circuit

/-- No timeout comes for the transition that is in flight. -/
def Timely (timing : Timing) (settings : ChipSettings) (events : List Event) : Prop :=
  ∀ before id after, events = before ++ .timeout id :: after →
    ∀ history c, Reaches timing settings before history c →
      ∀ p, c.receiver.radio.pending = some p → p.id ≠ id

variable {timing : Timing} {settings : ChipSettings} {events : List Event} {history : Journal}
  {c : Circuit}

theorem Timely.of_append {more : List Event} (h : Timely timing settings (events ++ more)) :
    Timely timing settings events := by
  intro before id after hsplit
  exact h before id (after ++ more) (by simp [hsplit])

theorem timely_of_none (h : ∀ id, .timeout id ∉ events) : Timely timing settings events := by
  intro before id after hsplit
  exact absurd (by simp [hsplit]) (h id)

theorem Reaches.sound (h : Reaches timing settings events history c)
    (htimely : Timely timing settings events) : c.Sound (history.muted false) := by
  induction h with
  | start => exact .resting rfl rfl rfl
  | step h hoffers hstep ih =>
      rw [Journal.muted_append]
      rcases ((ih htimely.of_append).step h.steady hoffers hstep).1 with hsound | hlate
      · exact hsound
      · obtain ⟨-, p, hpending, rfl⟩ := hlate
        exact absurd rfl (htimely _ _ [] rfl _ _ h p hpending)

theorem Reaches.chip (h : Reaches timing settings events history c) :
    c.receiver.chip = history.chip settings := by
  induction h with
  | start => rfl
  | step _ _ hstep ih =>
      obtain ⟨turn, -, rfl, rfl⟩ := step_ok hstep
      rw [Journal.chip_append, ← ih]
      rfl

theorem Reaches.tunes (h : Reaches timing settings events history c)
    (hpending : c.receiver.radio.pending = none)
    (hband : c.receiver.radio.attributes.band.InRegister) :
    c.receiver.chip.OnChannel c.receiver.radio.state c.receiver.radio.attributes := by
  obtain ⟨script, -, hrun⟩ := h.run_eq
  rw [h.chip]
  exact (Controller.run_attuned settings hrun).tunes.rest hpending hband

theorem Reaches.onChannel (h : Reaches timing settings events history c)
    (hbands : ∀ r b, .request r ∈ events → r.operation = .start b → b.InRegister)
    (hpending : c.receiver.radio.pending = none) :
    c.receiver.chip.OnChannel c.receiver.radio.state c.receiver.radio.attributes := by
  obtain ⟨script, rfl, hrun⟩ := h.run_eq
  refine h.tunes hpending (Controller.run_bands (fun x hx r b hr ↦ ?_) hrun).current
  exact hbands r b (hr ▸ List.mem_map_of_mem hx)

end Circuit

theorem Panel.Fits.powered_iff {state : RadioState} {muted : Bool} {p : Panel}
    (h : p.Fits state muted) : p.powered = true ↔ state.isOn = true := by
  cases state <;> simp_all [Fits, RadioState.isOn]

/-- The chip of a radio at rest is as its attributes say. It has power exactly while the radio is
on, and its control register is then set for the band and the mono switch. Outside of scans it is
tuned to the frequency that the radio knows, and searches on from there. -/
theorem chip_mirrors_attributes {timing : Timing} {settings : ChipSettings} {events : List Event}
    {history : Journal} {c : Circuit} (h : Circuit.Reaches timing settings events history c)
    (hbands : ∀ r b, .request r ∈ events → r.operation = .start b → b.InRegister)
    (htimely : Circuit.Timely timing settings events)
    (hpending : c.receiver.radio.pending = none) :
    (c.receiver.chip.powered = true ↔ c.receiver.radio.state.isOn = true) ∧
    (c.receiver.radio.state.isOn = true →
      c.receiver.chip.register Register.fmControl =
        (Register.fmControlValue c.receiver.radio.attributes.band
          c.receiver.radio.attributes.forceMono).toUInt16) ∧
    (c.receiver.radio.state = .started ∨ c.receiver.radio.state = .paused →
      ∀ f, c.receiver.radio.attributes.frequency = some f →
        c.receiver.chip.tuned = f ∧ c.receiver.chip.frequencyWritten = false ∧
          c.receiver.chip.SearchesBeyond f) := by
  have hpower : c.receiver.chip.powered = true ↔ c.receiver.radio.state.isOn = true := by
    cases h.sound htimely with
    | resting _ _ hpanel => exact hpanel.powered_iff
    | waiting hsome => simp [hpending] at hsome
  refine ⟨hpower, fun hon ↦ ?_, fun hstate f hf ↦ ?_⟩
  · exact congrArg Setup.control (h.mirrors hpending hon)
  · have htuned : c.receiver.radio.state.isTuned = true := by
      rcases hstate with hstate | hstate <;> rw [hstate] <;> rfl
    have hchip := h.onChannel hbands hpending htuned f hf
    have hpowered := hpower.mpr (RadioState.isOn_of_isTuned htuned)
    exact ⟨hchip.tuned, hchip.unwritten, hchip.searchesBeyond hpowered⟩

/-- A start, a channel, and a search that takes the chip away from it and is stopped. -/
def searchFromChannel : List Event :=
  [.ready, .request ⟨none, .start .europeUs⟩] ++ startAnswers ++
    [.request ⟨none, .setFrequency ⟨95800⟩⟩, .callback (.vendor 0xfc15 [0, 10, 0]),
      .callback (.vendor 0xfc15 [0, 9, 0]), .request ⟨none, .scanUp⟩,
      .callback (.vendor 0xfc15 [0, 7, 0]), .callback (.vendor 0xfc15 [0, 9, 0]),
      .request ⟨none, .stopScan⟩, .callback (.vendor 0xfc15 [0, 9, 0]),
      .callback (.vendor 0xfc15 [0, 10, 0]), .callback (.vendor 0xfc15 [0, 9, 0])]

theorem stopped_search_leaves_channel :
    ∃ history c, Circuit.Reaches {} {} searchFromChannel history c ∧
      c.receiver.radio.pending = none ∧ c.receiver.radio.state = .started ∧
        c.receiver.chip.powered = true ∧ c.receiver.chip.register Register.fmControl = 6 ∧
          c.receiver.chip.tuned = ⟨95800⟩ ∧ c.receiver.chip.frequencyWritten = false ∧
            c.receiver.chip.SearchesBeyond ⟨95800⟩ := by
  have hstart : Circuit.Reaches {} {} [] [] (Circuit.start {} {}) := .start
  obtain ⟨⟨c, journal⟩, hrun, hpending, hstate, hfrequency, hband, hmono⟩ : ∃ x,
      (Circuit.start {} {}).run searchFromChannel = some x ∧
        x.1.receiver.radio.pending = none ∧ x.1.receiver.radio.state = .started ∧
          x.1.receiver.radio.attributes.frequency = some ⟨95800⟩ ∧
            x.1.receiver.radio.attributes.band = .europeUs ∧
              x.1.receiver.radio.attributes.forceMono = false := by
    refine ⟨_, rfl, ?_⟩
    decide
  have hbands : ∀ r b, .request r ∈ searchFromChannel → r.operation = .start b →
      b.InRegister := by
    intro r b hr hb
    simp only [searchFromChannel, startAnswers, List.cons_append, List.nil_append, List.mem_cons,
      Event.request.injEq, reduceCtorEq, List.not_mem_nil, or_false, false_or] at hr
    rcases hr with rfl | rfl | rfl | rfl <;> cases hb
    decide
  have htimely : Circuit.Timely {} {} searchFromChannel :=
    Circuit.timely_of_none (by simp [searchFromChannel, startAnswers])
  have h := hstart.run hrun
  obtain ⟨hpower, hcontrol, hchannel⟩ := chip_mirrors_attributes h hbands htimely hpending
  have hon : c.receiver.radio.state.isOn = true := by rw [hstate]; rfl
  refine ⟨journal, c, h, hpending, hstate, hpower.mpr hon, ?_, hchannel (.inl hstate) _ hfrequency⟩
  rw [hcontrol hon, hband, hmono]
  rfl

end FmTuner
