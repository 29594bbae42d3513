import FmTuner.Proofs.Circuit

/-!
# How the chip is set up

Two parts of the chip show how the radio was started: the power, and the control register, which
holds the band and the mono switch. The calls that the controller makes determine both, whatever
comes back. While a radio that is on rests, they are those that go with its attributes.
-/

namespace FmTuner

structure Setup where
  powered : Bool
  control : UInt16

def Chip.setup (c : Chip) : Setup := ⟨c.powered, c.register Register.fmControl⟩

namespace Setup

/-- The setup after a call. Without power nothing is written, and what was written is lost. -/
def after (s : Setup) : Call → Setup
  | .power true => { s with powered := true }
  | .power false => ⟨false, 0⟩
  | .vendor opcode (register :: access :: value) =>
      if s.powered = true ∧ opcode = Register.accessOpcode ∧ access = Register.writeAccess ∧
          register = Register.fmControl then
        { s with control := (Chip.valueOf? value).getD s.control }
      else s
  | .vendor .. => s

/-- The setup after calls of which the link took some. -/
def afterAll (s : Setup) (sent : List (Call × Bool)) : Setup :=
  sent.foldl (fun s x ↦ if x.2 then s.after x.1 else s) s

/-- The setup after a command that was taken. -/
def carry (s : Setup) (command : Command) : Setup :=
  match command.call with
  | some call => s.after call
  | none => s

@[simp] theorem afterAll_append (s : Setup) (xs ys : List (Call × Bool)) :
    s.afterAll (xs ++ ys) = (s.afterAll xs).afterAll ys := by
  simp [afterAll]

theorem afterAll_taken (s : Setup) (command : Command) :
    s.afterAll (command.call.map (·, true)).toList = s.carry command := by
  unfold carry
  cases command.call <;> rfl

end Setup

namespace Chip

variable {c d : Chip} {answer : Callback}

theorem valueOf?_byte (v : UInt8) : valueOf? [v] = some v.toUInt16 := by
  have hword : Bytes.toWord v 0 = v.toUInt16 := by
    apply UInt16.toNat_inj.mp
    have hlt : v.toNat < 256 := v.toNat_lt
    simp only [Bytes.toWord, UInt8.toNat_zero, Nat.mul_zero, Nat.add_zero, UInt16.toNat_ofNat',
      UInt8.toNat_toUInt16]
    omega
  rw [valueOf?, hword]

theorem Keeps.setup (h : c.Keeps d) : d.setup = c.setup := by
  rw [Chip.setup, Chip.setup, h.powered, h.register]

theorem command_of_write (hpowered : c.powered = true) (address : UInt8) (data : List UInt8) :
    c.command Register.accessOpcode (address :: Register.writeAccess :: data) =
      (valueOf? data).bind fun value ↦ (c.write address value).map fun d ↦
        (d, .vendor Register.confirmOpcode [0, address, Register.writeAccess]) := by
  cases hvalue : valueOf? data with
  | none => simp [command, hpowered, hvalue]
  | some value => cases hwrite : c.write address value <;> simp [command, hpowered, hvalue, hwrite]

/-- Only an accepted write changes the registers. -/
theorem command_keeps {opcode access address : UInt8} {data : List UInt8}
    (haccess : access ≠ Register.writeAccess)
    (h : c.command opcode (address :: access :: data) = some (d, answer)) : c.Keeps d := by
  simp only [command, haccess, if_false] at h
  split at h
  · cases h
  · split at h
    · split at h
      · split at h
        · obtain ⟨x, hread, heq⟩ := Option.bind_eq_some_iff.mp h
          cases heq
          exact read_keeps hread
        · cases h
      · cases h
    · cases h

/-- A call that the chip refuses would not have changed its setup either. -/
theorem setup_of_call (c : Chip) (call : Call) :
    ((c.call call).map fun x ↦ x.1.setup).getD c.setup = c.setup.after call := by
  cases call with
  | power on => cases on <;> rfl
  | vendor opcode payload =>
      by_cases hready : c.powered = true ∧ opcode = Register.accessOpcode
      · obtain ⟨hpowered, rfl⟩ := hready
        rcases payload with _ | ⟨address, _ | ⟨access, data⟩⟩
        · simp [Chip.call, command, Setup.after]
        · simp [Chip.call, command, Setup.after]
        · by_cases haccess : access = Register.writeAccess
          · subst haccess
            rw [Chip.call, command_of_write hpowered]
            cases hvalue : valueOf? data with
            | none => simp [Setup.after, hvalue]
            | some value =>
                by_cases haddress : address.toNat < 32
                · obtain ⟨d, hwrite, hkeeps⟩ := c.write_keeps haddress value
                  have hp : d.powered = c.powered := hkeeps.powered
                  have hcontrol := (hkeeps.register Register.fmControl).trans
                    (c.register_put haddress value Register.fmControl)
                  by_cases heq : address = Register.fmControl
                  · subst heq
                    simp [hwrite, setup, Setup.after, hp, hpowered, hcontrol, hvalue]
                  · simp [hwrite, setup, Setup.after, hp, hcontrol, heq, Ne.symm heq]
                · have hne : address ≠ Register.fmControl := by
                    rintro rfl
                    exact haddress (by decide)
                  simp [write, haddress, Setup.after, hne]
          · cases hcommand : c.command Register.accessOpcode (address :: access :: data) with
            | none => simp [Chip.call, hcommand, Setup.after, haccess]
            | some result =>
                have hkeeps := command_keeps haccess hcommand
                simp [Chip.call, hcommand, Setup.after, haccess, hkeeps.setup]
      · have hrefused : c.command opcode payload = none := by
          rw [not_and_or] at hready
          exact if_pos (by simpa using hready)
        have hsame : c.setup.after (.vendor opcode payload) = c.setup := by
          rcases payload with _ | ⟨address, _ | ⟨access, data⟩⟩
          · rfl
          · rfl
          · exact if_neg fun h ↦ hready ⟨h.1, h.2.1⟩
        simp [Chip.call, hrefused, hsame]

theorem serve_setup (c : Chip) (sent : List (Call × Bool)) :
    (c.serve sent).1.setup = c.setup.afterAll sent := by
  induction sent generalizing c with
  | nil => rfl
  | cons x rest ih =>
      obtain ⟨call, accepted⟩ := x
      cases accepted with
      | false =>
          rw [serve]
          exact ih c
      | true =>
          have hsetup := setup_of_call c call
          have hcons : c.setup.afterAll ((call, true) :: rest) =
              (c.setup.after call).afterAll rest := rfl
          rw [serve, hcons, ← hsetup]
          cases hcall : c.call call with
          | none => simpa [hcall] using ih c
          | some result =>
              obtain ⟨d, answer⟩ := result
              simpa [hcall] using ih d

end Chip

/-! ## What goes with the attributes -/

def RadioState.isOn : RadioState → Bool
  | .started | .paused | .scanning => true
  | _ => false

/-- The setup that goes with attributes, on a radio that is on. -/
def Attributes.setup (a : Attributes) : Setup :=
  ⟨true, (Register.fmControlValue a.band a.forceMono).toUInt16⟩

/-- The setup that goes with the attributes once a hook has been applied to them. -/
def Hook.setup (hook : Hook) (a : Attributes) : Setup :=
  match hook with
  | .started band => (a.restarted band).setup
  | .forceMonoSet on => { a with forceMono := on : Attributes }.setup
  | _ => a.setup

theorem Readings.poll_setup {r : Readings} {mode : ScanMode} {capacity : Nat} {a b : Attributes}
    {next : Operation} (h : r.poll mode capacity a = .ok (b, next)) : b.setup = a.setup := by
  unfold poll at h
  split at h
  · simp only [bind, Except.bind] at h
    split at h <;> cases h
    rfl
  · cases h
    rfl

theorem Hook.apply_setup {hook : Hook} {status : Status} {commands : List Command}
    {a b : Attributes} {followups : List Operation}
    (h : hook.apply status commands a = .ok (b, followups)) :
    b.setup = if status = .done then hook.setup a else a.setup := by
  cases status with
  | done =>
      cases hook with
      | scanPolled mode capacity =>
          simp only [apply, bind, Except.bind] at h
          split at h
          next => simp at h
          next hpoll =>
            cases h
            exact Readings.poll_setup hpoll
      | _ => cases h; rfl
  | _ => cases hook <;> cases h <;> rfl

namespace Setup

variable {s : Setup}

theorem carry_write {register : UInt8} (hregister : register ≠ Register.fmControl)
    (value : List UInt8) : s.carry (.write register value) = s :=
  if_neg fun h ↦ hregister h.2.2.2

theorem carry_control (hpowered : s.powered = true) (value : UInt8) :
    s.carry (Command.writeByte Register.fmControl value) = { s with control := value.toUInt16 } := by
  simp [carry, Command.writeByte, Command.call, after, hpowered, Chip.valueOf?_byte]

theorem carry_read (command : Command) (h : command.isRead = true) : s.carry command = s := by
  cases command with
  | read register length kind reading => exact if_neg fun h ↦ absurd h.2.2.1 (by decide)
  | _ => simp [Command.isRead] at h

theorem foldl_carry_of_keeps {commands : List Command}
    (h : ∀ command ∈ commands, s.carry command = s) : commands.foldl carry s = s := by
  induction commands with
  | nil => rfl
  | cons command rest ih =>
      rw [List.forall_mem_cons] at h
      rw [List.foldl_cons, h.1]
      exact ih h.2

end Setup

/-- An operation other than a start is carried out only by a radio that is on. -/
theorem RadioState.isOn_of_accept {state destination : RadioState} {operation : Operation}
    (hroute : route state operation = .accept destination) (hstart : operation.isStart = false) :
    state.isOn = true := by
  cases state with
  | idle => cases operation <;> simp [route, Route.whenIdle, Operation.isStart] at hroute hstart
  | started | paused | scanning => rfl
  | _ => simp [route] at hroute

namespace Plan

open Command Register

variable {timing : Timing} {operation : Operation} {a : Attributes} {scanMode : Option ScanMode}
  {plan : Plan}

theorem carry_tuneCommands (s : Setup) (f : Freq) :
    ∀ command ∈ tuneCommands f, s.carry command = s := by
  simp only [tuneCommands, List.forall_mem_cons]
  exact ⟨Setup.carry_write (by decide) _, Setup.carry_write (by decide) _, List.forall_mem_nil _⟩

theorem carry_searchCommands (s : Setup) (up : Bool) (threshold : Nat) :
    ∀ command ∈ searchCommands up threshold, s.carry command = s := by
  simp only [searchCommands, List.forall_mem_cons]
  exact ⟨Setup.carry_write (by decide) _, Setup.carry_write (by decide) _, List.forall_mem_nil _⟩

/-- The commands of an operation take the setup to the one that its end leaves. -/
theorem Built.carries_setup (h : Built timing a scanMode operation plan)
    {state destination : RadioState} (hroute : route state operation = .accept destination)
    (hon : destination.isOn = true) {s : Setup} (hs : state.isOn = true → s = a.setup) :
    plan.action.commands.foldl Setup.carry s = plan.action.hook.setup a := by
  have hkept : operation.isStart = false →
      (∀ command ∈ plan.action.commands, a.setup.carry command = a.setup) →
        plan.action.commands.foldl Setup.carry s = a.setup := by
    intro hstart hkeeps
    rw [hs (RadioState.isOn_of_accept hroute hstart)]
    exact Setup.foldl_carry_of_keeps hkeeps
  cases h with
  | start band =>
      have hrds : ∀ t : Setup, t.carry (writeByte rdsSystem rdsOn) = t :=
        fun t ↦ Setup.carry_write (by decide) _
      have haudio : ∀ t : Setup, t.carry (writeByte audioControl (audioControlValue false)) = t :=
        fun t ↦ Setup.carry_write (by decide) _
      have hcontrol := Setup.carry_control (s := s.carry (.power true)) rfl
        (fmControlValue band false)
      simp only [ofCommands, startCommands, List.foldl_cons, List.foldl_nil, hrds, haudio]
      exact hcontrol
  | reset =>
      cases state <;> simp [route, Route.whenIdle, Route.whenOn, Route.whenScanning] at hroute <;>
        simp [← hroute, RadioState.isOn] at hon
  | setForceMono on =>
      rw [hs (RadioState.isOn_of_accept hroute rfl)]
      exact Setup.carry_control (s := a.setup) rfl _
  | pause | resume | stopScan =>
      exact hkept rfl (List.forall_mem_cons.mpr
        ⟨Setup.carry_write (by decide) _, List.forall_mem_nil _⟩)
  | setFrequency => exact hkept rfl (carry_tuneCommands _ _)
  | scanUp => exact hkept rfl (carry_searchCommands _ _ _)
  | scanDown => exact hkept rfl (carry_searchCommands _ _ _)
  | fullScan | scanStep =>
      exact hkept rfl (List.forall_mem_cons.mpr
        ⟨Setup.carry_write (by decide) _, carry_searchCommands _ _ _⟩)
  | pollScan =>
      refine hkept rfl ?_
      simp only [ofCommands, List.forall_mem_cons]
      exact ⟨Setup.carry_read _ rfl, Setup.carry_read _ rfl, Setup.carry_read _ rfl,
        List.forall_mem_nil _⟩
  | scanDone =>
      refine hkept rfl ?_
      cases a.frequency with
      | none => exact List.forall_mem_nil _
      | some f => exact carry_tuneCommands _ f
  | setThreshold | setAutoAfSwitch | setAutoTaSwitch => exact hkept rfl (List.forall_mem_nil _)

theorem Built.poll_setup {mode : ScanMode} (h : Built timing a scanMode (.pollScan mode) plan)
    {commands : List Command} (hcalls : calls commands = calls plan.action.commands) (s : Setup) :
    ∀ command ∈ commands, s.carry command = s := by
  intro command hcommand
  have hmem : command.call ∈ calls plan.action.commands := hcalls ▸ List.mem_map_of_mem hcommand
  cases h with
  | pollScan =>
      obtain ⟨read, hread, hcall⟩ := List.mem_map.mp hmem
      have hisRead : read.isRead = true := by
        simp only [ofCommands, List.mem_cons, List.not_mem_nil, or_false] at hread
        rcases hread with rfl | rfl | rfl <;> rfl
      rw [Setup.carry, ← hcall]
      exact Setup.carry_read read hisRead

end Plan

theorem Command.isRead_of_call {c d : Command} (hcall : c.call = d.call) :
    c.isRead = d.isRead := by
  cases c <;> cases d <;> simp [call, isRead, Register.readAccess, Register.writeAccess] at hcall ⊢

theorem Pending.Planned.poll_of_read {p : Pending} (h : p.Planned) {command : Command}
    (hcommand : command ∈ p.action.commands) (hread : command.isRead = true) :
    ∃ mode, p.action.operation = .pollScan mode := by
  obtain ⟨timing, a, scanMode, plan, hbuilt, -, hcalls⟩ := h
  by_contra hnone
  have hwrites := hbuilt.reads fun mode hmode ↦ hnone ⟨mode, hmode⟩
  have hmem : command.call ∈ Command.calls plan.action.commands :=
    hcalls ▸ List.mem_map_of_mem hcommand
  obtain ⟨planned, hplanned, hcall⟩ := List.mem_map.mp hmem
  rw [← Command.isRead_of_call hcall, hwrites planned hplanned] at hread
  cases hread

/-! ## Moves -/

namespace Journal

/-- The setup of a chip that was off before the calls on record. -/
def setup (j : Journal) : Setup := Setup.afterAll ⟨false, 0⟩ j.sent

theorem setup_append (j k : Journal) : setup (j ++ k) = j.setup.afterAll k.sent := by
  simp [setup]

theorem setup_of_sent {j k : Journal} (h : k.sent = []) : setup (j ++ k) = j.setup := by
  rw [setup_append, h]
  rfl

end Journal

namespace Turn

/-- The setup is the one that goes with the attributes. A transition in flight makes it so before it
gets where the radio is on; only a poll may also end where it began, and leaves it alone. -/
structure Mirrored (t : Turn) : Prop where
  rest : t.radio.pending = none → t.radio.state.isOn = true →
    t.journal.setup = t.radio.attributes.setup
  flight : ∀ p, t.radio.pending = some p → p.destination.isOn = true →
    (p.action.commands.drop (p.action.index + 1)).foldl Setup.carry t.journal.setup =
      p.action.hook.setup t.radio.attributes
  poll : ∀ p mode, t.radio.pending = some p → p.action.operation = .pollScan mode →
    t.journal.setup = t.radio.attributes.setup

variable {accepts : Call → Bool} {e : Option Event} {t u : Turn}

theorem Mirrored.congr (h : t.Mirrored) {k : Journal} (hjournal : u.journal = t.journal ++ k)
    (hk : k.sent = []) (hpending : u.radio.pending = t.radio.pending)
    (hstate : u.radio.state.isOn = true → t.radio.state.isOn = true)
    (hattributes : u.radio.attributes = t.radio.attributes) : u.Mirrored := by
  have hsetup : u.journal.setup = t.journal.setup := hjournal ▸ Journal.setup_of_sent hk
  obtain ⟨hrest, hflight, hpoll⟩ := h
  refine ⟨fun hnone hon ↦ ?_, fun p hp ↦ ?_, fun p mode hp ↦ ?_⟩
  · rw [hsetup, hattributes]
    exact hrest (hpending ▸ hnone) (hstate hon)
  · rw [hsetup, hattributes]
    exact hflight p (hpending ▸ hp)
  · rw [hsetup, hattributes]
    exact hpoll p mode (hpending ▸ hp)

theorem Taken.mirrored {r : Request} (htaken : Taken e t r u) (h : t.Mirrored) : u.Mirrored := by
  cases htaken with
  | queued => exact h.congr (take_journal ..) rfl rfl id rfl
  | poll => exact h

theorem Mirrored.of_settle (p : Pending) (progress : Progress) (armed timedOut : Bool)
    (h : (resolution { p with action := progress.action } timedOut).1.isOn = true →
      t.journal.setup.afterAll progress.sent = progress.attributes.setup) :
    (t.settle p progress armed timedOut).Mirrored := by
  have hprogress := (Journal.ofProgress_views t.radio.arrivals progress).1
  have hend := (Journal.ofEnd_views (t.settling progress) { p with action := progress.action }
    armed timedOut).1
  have hnone : (t.settle p progress armed timedOut).radio.pending = none := by
    simp [Controller.resolved]
  refine ⟨fun _ hon ↦ ?_, fun q hq ↦ by simp only [hnone, reduceCtorEq] at hq,
    fun q mode hq ↦ by simp only [hnone, reduceCtorEq] at hq⟩
  rw [settle_journal, Journal.setup_of_sent hend, Journal.setup_append, hprogress]
  simp only [settle_radio, Controller.resolved] at hon ⊢
  exact h hon

theorem Mirrored.of_hold (p : Pending) (progress : Progress)
    (hflight : p.destination.isOn = true →
      (progress.action.commands.drop (progress.action.index + 1)).foldl Setup.carry
          (t.journal.setup.afterAll progress.sent) =
        progress.action.hook.setup progress.attributes)
    (hpoll : ∀ mode, progress.action.operation = .pollScan mode →
      t.journal.setup.afterAll progress.sent = progress.attributes.setup) :
    (t.hold p progress).Mirrored := by
  have hsetup : (t.hold p progress).journal.setup = t.journal.setup.afterAll progress.sent := by
    rw [hold_journal, Journal.setup_append, (Journal.ofProgress_views _ _).1]
  refine ⟨by simp, fun q hq hon ↦ ?_, fun q mode hq hoperation ↦ ?_⟩
  · simp only [hold_radio, Option.some.injEq] at hq
    subst hq
    rw [hsetup, hold_radio]
    exact hflight hon
  · simp only [hold_radio, Option.some.injEq] at hq
    subst hq
    rw [hsetup, hold_radio]
    exact hpoll mode hoperation

theorem Mirrored.begin (h : u.Mirrored) (hpending : u.radio.pending = none) {r : Request}
    {destination : RadioState} {plan : Plan} {progress : Progress}
    (hroute : route u.radio.state r.operation = .accept destination)
    (hbuilt : Plan.Built u.radio.timing u.radio.attributes u.radio.scanMode r.operation plan)
    (hbegins : plan.action.Begins accepts u.radio.attributes progress)
    (hstatus : progress.action.status = .running) :
    ((u.launch (u.radio.transition r destination plan.action) plan.notices).hold
      (u.radio.transition r destination plan.action) progress).Mirrored := by
  have hlaunch := launch_calm hbuilt (u.radio.transition r destination plan.action) u.radio
  have hrest := h.rest hpending
  cases hbegins with
  | empty => simp at hstatus
  | refused => simp at hstatus
  | @issued first rest hcommands =>
      refine .of_hold _ _ (fun hon ↦ ?_) fun mode hoperation ↦ ?_
      · have hcarries := hbuilt.carries_setup hroute hon hrest
        rw [hcommands, List.foldl_cons, ← Setup.afterAll_taken] at hcarries
        rw [launch_journal, Journal.setup_of_sent hlaunch.sent]
        rw [Progress.sent, Exchange.sent_issued, hcommands]
        exact hcarries
      · have hoperation' : r.operation = .pollScan mode := hbuilt.action.1.symm.trans hoperation
        have hon := RadioState.isOn_of_accept hroute (by rw [hoperation']; rfl)
        have hsetup : ∀ command ∈ plan.action.commands, _ :=
          Plan.Built.poll_setup (hoperation' ▸ hbuilt) rfl u.radio.attributes.setup
        rw [hcommands] at hsetup
        rw [launch_journal, Journal.setup_of_sent hlaunch.sent, hrest hon]
        have hfirst := hsetup first (List.mem_cons_self ..)
        rw [← Setup.afterAll_taken] at hfirst
        rw [Progress.sent, Exchange.sent_issued]
        exact hfirst

theorem Mirrored.flash (h : u.Mirrored) (hpending : u.radio.pending = none) {r : Request}
    {destination : RadioState} {plan : Plan} {progress : Progress}
    (hroute : route u.radio.state r.operation = .accept destination)
    (hbuilt : Plan.Built u.radio.timing u.radio.attributes u.radio.scanMode r.operation plan)
    (hbegins : plan.action.Begins accepts u.radio.attributes progress)
    (hstatus : progress.action.status.isTerminal = true) :
    ((u.launch (u.radio.transition r destination plan.action) plan.notices).settle
      (u.radio.transition r destination plan.action) progress false false).Mirrored := by
  have hlaunch := launch_calm hbuilt (u.radio.transition r destination plan.action) u.radio
  refine .of_settle _ _ _ _ fun hon ↦ ?_
  rw [launch_journal, Journal.setup_of_sent hlaunch.sent]
  cases hbegins with
  | issued => simp [Status.isTerminal] at hstatus
  | refused => cases hon
  | empty hcommands hhook =>
      have hcarries := hbuilt.carries_setup hroute hon (h.rest hpending)
      rw [hcommands] at hcarries
      exact hcarries.trans (Hook.apply_setup hhook).symm

theorem Mirrored.advance (h : t.Mirrored) (hplanned : t.radio.Planned) {p : Pending}
    {callback : Callback} {progress : Progress} (hpending : t.radio.pending = some p)
    (hadvances : p.action.Advances accepts callback t.radio.attributes progress)
    (hstatus : progress.action.status = .running) : (t.hold p progress).Mirrored := by
  cases hadvances with
  | stopped hcommand hcomplete hverdict =>
      have hterminal := Action.verdict_status_isTerminal hverdict
      simp only at hstatus
      simp [hstatus, Status.isTerminal] at hterminal
  | finished => simp at hstatus
  | refused => simp at hstatus
  | @issued _ completed next hcommand hcomplete hnext =>
      have hsent : t.journal.setup.afterAll (Progress.sent
          { action := { p.action with
              commands := p.action.commands.set p.action.index completed
              index := p.action.index + 1 }
            attributes := t.radio.attributes
            exchanges := [.answered p.action.index completed callback .success,
              .issued (p.action.index + 1) next true] }) = t.journal.setup.carry next := by
        rw [← Setup.afterAll_taken, ← Exchange.sent_issued (p.action.index + 1)]
        rfl
      refine .of_hold _ _ (fun hon ↦ ?_) fun mode hoperation ↦ ?_
      · have hflight := h.flight p hpending hon
        rw [List.drop_eq_getElem_cons (List.getElem?_eq_some_iff.mp hnext).1,
          (List.getElem?_eq_some_iff.mp hnext).2, List.foldl_cons] at hflight
        rw [hsent]
        dsimp only
        rw [List.drop_set_of_lt (by omega)]
        exact hflight
      · obtain ⟨timing, a, scanMode, plan, hbuilt, -, hcalls⟩ := hplanned p hpending
        rw [hsent, h.poll p mode hpending hoperation]
        exact Plan.Built.poll_setup (hoperation ▸ hbuilt) hcalls _ next (List.mem_of_getElem? hnext)

theorem Mirrored.finish (h : t.Mirrored) (hplanned : t.radio.Planned)
    (hsteady : t.radio.Steady) {p : Pending} {callback : Callback} {progress : Progress}
    (hpending : t.radio.pending = some p)
    (hadvances : p.action.Advances accepts callback t.radio.attributes progress)
    (hstatus : progress.action.status.isTerminal = true) :
    (t.settle p progress true false).Mirrored := by
  refine .of_settle _ _ _ _ fun hon ↦ ?_
  cases hadvances with
  | issued => simp [hsteady p hpending, Status.isTerminal] at hstatus
  | refused => cases hon
  | @finished _ completed b followups hcommand hcomplete hlast hhook =>
      have hflight := h.flight p hpending hon
      rw [List.drop_eq_nil_of_le (by omega)] at hflight
      exact hflight.trans (Hook.apply_setup hhook).symm
  | @stopped command completed verdict b followups hcommand hcomplete hverdict hhook =>
      -- A command that is no read succeeds or ends the radio in the error state.
      have hread : command.isRead = true ∧ verdict.status ≠ .done := by
        cases verdict with
        | success => contradiction
        | error => cases hon
        | cancel | fail =>
            refine ⟨?_, by simp [Verdict.status]⟩
            by_contra hwrite
            simpa using (Command.verdict_of_complete hcomplete).2 (by simpa using hwrite)
      obtain ⟨mode, hoperation⟩ :=
        (hplanned p hpending).poll_of_read (List.mem_of_getElem? hcommand) hread.1
      have hb := Hook.apply_setup hhook
      rw [if_neg hread.2] at hb
      exact (h.poll p mode hpending hoperation).trans hb.symm

theorem Move.mirrored (hmove : Move accepts e t u) (h : t.Mirrored) (hplanned : t.radio.Planned)
    (hsteady : t.radio.Steady) : u.Mirrored := by
  cases hmove with
  | ready =>
      have hchange := (Journal.ofChange_views t.radio.state .idle).1
      have hpoll := (Journal.calm_ofPoll .idle t.radio.generation t.radio.timing.pollInterval).sent
      refine h.congr (k := Journal.ofChange t.radio.state .idle ++
        Journal.ofPoll .idle t.radio.generation t.radio.timing.pollInterval) (by simp)
          (by rw [Journal.sent_append, hchange, hpoll]; rfl) (by simp) ?_ (by simp)
      simp [RadioState.isOn]
  | arrive r => exact h.congr (enqueue_journal ..) rfl rfl id rfl
  | decline htaken =>
      exact (htaken.mirrored h).congr (report_journal ..) (Journal.calm_ofReport _ _).sent
        (by simp) (by simp) (by simp)
  | begin htaken hroute hplan hbegins hstatus =>
      have hheld := (htaken.mirrored h).begin htaken.pending hroute (Plan.built_of_build hplan)
        hbegins hstatus
      exact hheld.congr (emit_journal ..) rfl rfl id rfl
  | flash htaken hroute hplan hbegins hstatus =>
      exact (htaken.mirrored h).flash htaken.pending hroute (Plan.built_of_build hplan) hbegins
        hstatus
  | advance hpending hadvances hstatus => exact h.advance hplanned hpending hadvances hstatus
  | finish hpending hadvances hstatus =>
      exact h.finish hplanned hsteady hpending hadvances hstatus
  | expire => exact .of_settle _ _ _ _ fun hon ↦ by cases hon

end Turn

theorem Controller.run_mirrored {timing : Timing} {script : List (Event × (Call → Bool))} {t : Turn}
    (h : (initial timing).run script = .ok t) : t.Mirrored ∧ t.radio.Planned := by
  have hinitial : Turn.Mirrored { radio := initial timing } ∧ (initial timing).Planned := by
    refine ⟨⟨?_, ?_, ?_⟩, ?_⟩ <;> simp [initial, RadioState.isOn, Planned]
  exact (run_induction (P := fun t ↦ t.Mirrored ∧ t.radio.Planned) hinitial
    (fun _ _ _ _ _ ht hsteady _ hmove ↦
      ⟨hmove.mirrored ht.1 ht.2 hsteady, hmove.planned ht.2⟩)
    (fun _ _ _ ht hsteady hmove ↦ ⟨hmove.mirrored ht.1 ht.2 hsteady, hmove.planned ht.2⟩) h).1

/-! ## Circuits -/

namespace Circuit

variable {timing : Timing} {settings : ChipSettings} {events : List Event} {history : Journal}
  {c : Circuit}

/-- The chip is as the calls on record have left it. -/
theorem Reaches.setup (h : Reaches timing settings events history c) :
    c.receiver.chip.setup = history.setup := by
  induction h with
  | start => rfl
  | step _ _ hstep ih =>
      obtain ⟨turn, -, rfl, rfl⟩ := step_ok hstep
      rw [Journal.setup_append, ← ih]
      exact Chip.serve_setup _ _

/-- While nothing is in flight, the power and the control register of a radio that is on are those
that go with its attributes. -/
theorem Reaches.mirrors (h : Reaches timing settings events history c)
    (hpending : c.receiver.radio.pending = none) (hon : c.receiver.radio.state.isOn = true) :
    c.receiver.chip.setup = c.receiver.radio.attributes.setup := by
  obtain ⟨script, -, hrun⟩ := h.run_eq
  rw [h.setup]
  exact (Controller.run_mirrored hrun).1.rest hpending hon

end Circuit

end FmTuner
