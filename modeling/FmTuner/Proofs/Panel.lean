import FmTuner.Chip
import FmTuner.Command
import FmTuner.Controller.Route
import FmTuner.Proofs.Plans

/-!
# What commands do to the chip

The course of a transition depends on two things about the chip: whether it is powered, and what
its audio register holds. They make up its panel. For every command it is said what the panel must
be for the chip to take it, what it is afterwards and how the chip answers; from this follows, plan
by plan, that the commands of a transition go through and leave the panel as its destination wants
it.
-/

namespace FmTuner

structure Panel where
  powered : Bool
  audio : UInt16

def Chip.panel (c : Chip) : Panel := ⟨c.powered, c.register Register.audioControl⟩

/-- An answer that is no protocol error; only a read is ever without success. -/
def Command.Answered (command : Command) (answer : Callback) : Prop :=
  ∀ band completed verdict, command.complete answer band = .ok (completed, verdict) →
    verdict ≠ .error ∧ (verdict ≠ .success → command.isRead = true)

namespace Panel

def Takes (p : Panel) : Command → Prop
  | .power _ | .delay _ => True
  | .write register value =>
      p.powered = true ∧ register.toNat < 32 ∧ (Chip.valueOf? value).isSome = true
  | .read register length kind _ =>
      p.powered = true ∧ register.toNat < 32 ∧ length.toNat = kind.length

/-- The panel after a command. Without power the registers are lost. -/
def after (p : Panel) : Command → Panel
  | .power true => { p with powered := true }
  | .power false => ⟨false, 0⟩
  | .write register value =>
      if register = Register.audioControl then { p with audio := (Chip.valueOf? value).getD 0 }
      else p
  | .delay _ | .read .. => p

/-- Commands go through one after another: `arrive` holds after the last, and `stay` after every
read, which need not succeed. -/
def Conducts (stay arrive : Panel → Prop) (p : Panel) : List Command → Prop
  | [] => arrive p
  | command :: rest =>
      p.Takes command ∧ (command.isRead = true → stay (p.after command)) ∧
        Conducts stay arrive (p.after command) rest

end Panel

/-! ## The chip -/

theorem answersRead_answer {register length : UInt8} {kind : ReadKind}
    (h : length.toNat = kind.length) (word : UInt16) :
    Command.answersRead register length Register.confirmOpcode
      ([0, register, Register.readAccess] ++ (Bytes.ofWord word).take length.toNat) = true := by
  have hle : kind.length ≤ 2 := by cases kind <;> decide
  have htake : ((Bytes.ofWord word).take length.toNat).length = length.toNat := by
    simp [Bytes.ofWord, h, hle]
  simp [Command.answersRead, htake]
  omega

namespace Chip

/-- What reading, tuning and searching leave as it is. -/
structure Keeps (c d : Chip) : Prop where
  powered : d.powered = c.powered
  registers : d.registers = c.registers
  stations : d.stations = c.stations
  searchPolls : d.searchPolls = c.searchPolls

/-- The chip after a register was written, without the effect that the register has. -/
def put (c : Chip) (address : UInt8) (h : address.toNat < 32) (value : UInt16) : Chip :=
  { c with registers := c.registers.set address.toNat value h }

variable {c d : Chip}

theorem Keeps.register (h : c.Keeps d) (address : UInt8) : d.register address = c.register address := by
  rw [Chip.register, Chip.register, register?, register?, h.registers]

theorem Keeps.panel (h : c.Keeps d) : d.panel = c.panel := by
  rw [Chip.panel, Chip.panel, h.powered, h.register]

theorem register_put (c : Chip) {address : UInt8} (h : address.toNat < 32) (value : UInt16)
    (other : UInt8) :
    (c.put address h value).register other =
      if other = address then value else c.register other := by
  rw [Chip.register, register?, put, Vector.getElem?_set]
  by_cases heq : other = address
  · simp [heq]
  · have hne : address.toNat ≠ other.toNat := fun h ↦ heq (UInt8.toNat_inj.mp h).symm
    simp [heq, hne, Chip.register, register?]

theorem searchTune_keeps (c : Chip) (mode : UInt8) : c.Keeps (c.searchTune mode) := by
  unfold searchTune
  split
  · exact ⟨rfl, rfl, rfl, rfl⟩
  · split
    · exact ⟨rfl, rfl, rfl, rfl⟩
    · split <;> exact ⟨rfl, rfl, rfl, rfl⟩

theorem write_keeps (c : Chip) {address : UInt8} (h : address.toNat < 32) (value : UInt16) :
    ∃ d, c.write address value = some d ∧ (c.put address h value).Keeps d := by
  rw [write, dif_pos h]
  split
  · exact ⟨_, rfl, rfl, rfl, rfl, rfl⟩
  · split
    · exact ⟨_, rfl, searchTune_keeps _ _⟩
    · exact ⟨_, rfl, rfl, rfl, rfl, rfl⟩

theorem read_keeps {address : UInt8} {value : UInt16} (h : c.read address = some (d, value)) :
    c.Keeps d := by
  unfold read at h
  split at h
  · cases h; exact ⟨rfl, rfl, rfl, rfl⟩
  · split at h
    · cases h; exact ⟨rfl, rfl, rfl, rfl⟩
    · split at h
      · split at h <;> cases h <;> exact ⟨rfl, rfl, rfl, rfl⟩
      · obtain ⟨v, -, heq⟩ := Option.map_eq_some_iff.mp h
        cases heq
        exact ⟨rfl, rfl, rfl, rfl⟩

theorem exists_read (c : Chip) {address : UInt8} (h : address.toNat < 32) :
    ∃ d value, c.read address = some (d, value) := by
  unfold read
  split
  · exact ⟨c, _, rfl⟩
  · split
    · exact ⟨c, _, rfl⟩
    · split
      · split <;> exact ⟨_, _, rfl⟩
      · exact ⟨c, c.registers[address.toNat], by simp [register?, h]⟩

theorem read_busy (hbusy : 0 < c.busyReads) :
    c.read Register.flags = some ({ c with busyReads := c.busyReads - 1 }, 0) := by
  simp [read, hbusy, Register.flags, Register.frequency, Register.signal]

theorem read_flags (hdone : c.busyReads = 0) : c.read Register.flags = some (c, c.flags) := by
  simp [read, hdone, Register.flags, Register.frequency, Register.signal]

/-- The chip carries out a command that its panel takes, and answers it. -/
theorem call_ok {command : Command} {call : Call} (htakes : c.panel.Takes command)
    (hcall : command.call = some call) :
    ∃ d answer, c.call call = some (d, answer) ∧ d.panel = c.panel.after command ∧
      command.Answered answer := by
  cases command with
  | power on =>
      cases hcall
      refine ⟨c.power on, .power on, rfl, ?_, ?_⟩
      · cases on <;> rfl
      · rintro band completed verdict hcomplete
        cases on <;> simp [Command.complete, Callback.power] at hcomplete <;>
          simp [← hcomplete.2]
  | delay ms => simp [Command.call] at hcall
  | write register value =>
      obtain ⟨hpowered, hregister, hvalue⟩ := htakes
      obtain ⟨word, hword⟩ := Option.isSome_iff_exists.mp hvalue
      obtain ⟨d, hwrite, hkeeps⟩ := c.write_keeps hregister word
      cases hcall
      have hpowered' : c.powered = true := hpowered
      refine ⟨d, .vendor Register.confirmOpcode [0, register, Register.writeAccess], ?_, ?_, ?_⟩
      · simp [Chip.call, command, hpowered', hword, hwrite]
      · have haudio := c.register_put hregister word Register.audioControl
        rw [hkeeps.panel, panel, haudio]
        by_cases heq : register = Register.audioControl
        · simp [panel, put, Panel.after, heq, hword]
        · simp [panel, put, Panel.after, heq, Ne.symm heq]
      · rintro band completed verdict hcomplete
        simp [Command.complete] at hcomplete
        simp [← hcomplete.2]
  | read register length kind reading =>
      obtain ⟨hpowered, hregister, hlength⟩ := htakes
      obtain ⟨d, word, hread⟩ := c.exists_read hregister
      have hpanel := (read_keeps hread).panel
      cases hcall
      have hpowered' : c.powered = true := hpowered
      have hbounds : 1 ≤ length ∧ length ≤ 2 := by
        simp only [UInt8.le_iff_toNat_le, hlength]
        cases kind <;> decide
      refine ⟨d, .vendor Register.confirmOpcode
        ([0, register, Register.readAccess] ++ (Bytes.ofWord word).take length.toNat), ?_, hpanel, ?_⟩
      · simp [Chip.call, command, hpowered', hread, hbounds, Register.readAccess,
          Register.writeAccess]
      · rintro band completed verdict hcomplete
        refine ⟨?_, fun _ ↦ rfl⟩
        obtain ⟨found, hdecodes, -⟩ :=
          Command.decodes_of_answered (answersRead_answer hlength word) hcomplete
        exact hdecodes.ne_error

end Chip

/-! ## Plans -/

/-- Whether the sound is muted, after a change of state. Only a pause, a resume and a start say
anything about it. -/
def RadioState.mutes (muted : Bool) : RadioState → RadioState → Bool
  | .started, .paused => true
  | .paused, .started | .idle, .started => false
  | _, _ => muted

namespace Panel

/-- The panel that goes with a state, when the sound was muted last or not. -/
def Fits (state : RadioState) (muted : Bool) (p : Panel) : Prop :=
  match state with
  | .invalid | .idle => p.powered = false
  | .started | .scanning => p.powered = true ∧ p.audio = (Register.audioControlValue muted).toUInt16
  | .paused =>
      p.powered = true ∧ muted = true ∧ p.audio = (Register.audioControlValue muted).toUInt16
  | .starting | .error => False

variable {stay arrive : Panel → Prop} {p : Panel}

/-- Commands that leave the panel alone go through while the power is on. -/
theorem conducts_of_same {commands : List Command} (hstay : stay p) (harrive : arrive p)
    (h : ∀ command ∈ commands, p.Takes command ∧ p.after command = p) :
    p.Conducts stay arrive commands := by
  induction commands with
  | nil => exact harrive
  | cons command rest ih =>
      rw [List.forall_mem_cons] at h
      obtain ⟨⟨htakes, hafter⟩, hrest⟩ := h
      refine ⟨htakes, ?_, ?_⟩ <;> rw [hafter]
      · exact fun _ ↦ hstay
      · exact ih hrest

end Panel

/-- Whether the chip is left as it is, but for the registers of tuning and searching. -/
def Operation.keepsPanel : Operation → Bool
  | .start _ | .reset | .pause | .resume => false
  | _ => true

theorem Plan.Built.keeps_panel {timing : Timing} {operation : Operation} {a : Attributes}
    {scanMode : Option ScanMode} {plan : Plan} (h : Built timing a scanMode operation plan)
    (hkeeps : operation.keepsPanel = true) {p : Panel} (hp : p.powered = true) :
    ∀ command ∈ plan.action.commands, p.Takes command ∧ p.after command = p := by
  have hbyte : ∀ register value, register.toNat < 32 → register ≠ Register.audioControl →
      p.Takes (Command.writeByte register value) ∧
        p.after (Command.writeByte register value) = p := by
    intro register value hregister hne
    exact ⟨⟨hp, hregister, rfl⟩, if_neg hne⟩
  have hfrequency : ∀ f, p.Takes (Command.writeFrequency f) ∧
      p.after (Command.writeFrequency f) = p := fun f ↦ ⟨⟨hp, by decide, rfl⟩, rfl⟩
  have hsearch : ∀ up threshold, ∀ command ∈ searchCommands up threshold,
      p.Takes command ∧ p.after command = p := by
    intro up threshold
    simp only [searchCommands, List.forall_mem_cons]
    exact ⟨hbyte _ _ (by decide) (by decide), hbyte _ _ (by decide) (by decide),
      List.forall_mem_nil _⟩
  have htune : ∀ f, ∀ command ∈ tuneCommands f, p.Takes command ∧ p.after command = p := by
    intro f
    simp only [tuneCommands, List.forall_mem_cons]
    exact ⟨hfrequency f, hbyte _ _ (by decide) (by decide), List.forall_mem_nil _⟩
  cases h with
  | setFrequency => exact htune _
  | setForceMono | stopScan =>
      exact List.forall_mem_cons.mpr ⟨hbyte _ _ (by decide) (by decide), List.forall_mem_nil _⟩
  | scanUp | scanDown => exact hsearch _ _
  | fullScan | scanStep => exact List.forall_mem_cons.mpr ⟨hfrequency _, hsearch _ _⟩
  | scanDone =>
      cases a.frequency with
      | none => exact List.forall_mem_nil _
      | some f => exact htune f
  | pollScan =>
      simp only [ofCommands, List.forall_mem_cons]
      exact ⟨⟨⟨hp, by decide, rfl⟩, rfl⟩, ⟨⟨hp, by decide, rfl⟩, rfl⟩, ⟨⟨hp, by decide, rfl⟩, rfl⟩,
        List.forall_mem_nil _⟩
  | setThreshold | setAutoAfSwitch | setAutoTaSwitch => exact List.forall_mem_nil _
  | _ => simp [Operation.keepsPanel] at hkeeps

/-- An accepted operation that leaves the panel alone ends in a state that the panel fits. -/
theorem Panel.Fits.of_route {state destination : RadioState} {muted : Bool} {p : Panel}
    {operation : Operation} (hkeeps : operation.keepsPanel = true) (hp : p.Fits state muted)
    (hroute : route state operation = .accept destination) :
    p.powered = true ∧ p.Fits destination (RadioState.mutes muted state destination) := by
  cases state with
  | invalid => simp [route] at hroute
  | starting | error => exact hp.elim
  | idle =>
      cases operation <;>
        simp [route, Route.whenIdle, Operation.keepsPanel] at hroute hkeeps
  | started =>
      cases operation <;>
        simp [route, Route.whenOn, Operation.setsProperty, Operation.keepsPanel] at hroute hkeeps <;>
          subst hroute <;> exact ⟨hp.1, hp⟩
  | paused =>
      cases operation <;>
        simp [route, Route.whenOn, Operation.setsProperty, Operation.keepsPanel] at hroute hkeeps <;>
          subst hroute <;> first | exact ⟨hp.1, hp⟩ | exact ⟨hp.1, hp.1, hp.2.2⟩
  | scanning =>
      cases operation <;>
        simp [route, Route.whenScanning, Operation.setsProperty, Operation.keepsPanel]
          at hroute hkeeps <;>
          subst hroute <;> exact ⟨hp.1, hp⟩

/-- The commands of an accepted operation go through, and leave the panel that goes with the
destination. -/
theorem Plan.Built.conducts {timing : Timing} {operation : Operation} {a : Attributes}
    {scanMode : Option ScanMode} {plan : Plan} (h : Built timing a scanMode operation plan)
    {state destination : RadioState} {muted : Bool} {p : Panel}
    (hroute : route state operation = .accept destination) (hp : p.Fits state muted) :
    p.Conducts (Panel.Fits state muted)
      (Panel.Fits destination (RadioState.mutes muted state destination)) plan.action.commands := by
  by_cases hkeeps : operation.keepsPanel = true
  · obtain ⟨hpowered, harrive⟩ := hp.of_route hkeeps hroute
    exact Panel.conducts_of_same hp harrive (h.keeps_panel hkeeps hpowered)
  · cases h with
    | start b =>
        obtain ⟨rfl, rfl⟩ : state = .idle ∧ destination = .started := by
          cases state <;> simp [route, Route.whenIdle, Route.whenOn, Route.whenScanning,
            Operation.setsProperty] at hroute
          exact ⟨rfl, hroute.symm⟩
        simp only [ofCommands, startCommands, Command.writeByte, Panel.Conducts, Panel.Takes,
          Command.isRead]
        exact ⟨trivial, by simp, ⟨rfl, by decide, rfl⟩, by simp, trivial, by simp,
          ⟨rfl, by decide, rfl⟩, by simp, ⟨rfl, by decide, rfl⟩, by simp, rfl, rfl⟩
    | reset =>
        obtain ⟨hpowered, rfl⟩ : p.powered = true ∧ destination = .idle := by
          cases state <;> simp [route, Route.whenIdle, Route.whenOn, Route.whenScanning] at hroute
          all_goals exact ⟨hp.1, hroute.symm⟩
        simp only [ofCommands, Command.writeByte, Panel.Conducts, Panel.Takes, Command.isRead]
        exact ⟨⟨hpowered, by decide, rfl⟩, by simp, trivial, by simp, rfl⟩
    | pause =>
        obtain ⟨rfl, rfl⟩ : state = .started ∧ destination = .paused := by
          cases state <;> simp [route, Route.whenIdle, Route.whenScanning] at hroute
          exact ⟨rfl, hroute.symm⟩
        simp only [ofCommands, Command.writeByte, Panel.Conducts, Panel.Takes, Command.isRead]
        exact ⟨⟨hp.1, by decide, rfl⟩, by simp, hp.1, rfl, rfl⟩
    | resume =>
        obtain ⟨rfl, rfl⟩ : state = .paused ∧ destination = .started := by
          cases state <;> simp [route, Route.whenIdle, Route.whenScanning] at hroute
          exact ⟨rfl, hroute.symm⟩
        simp only [ofCommands, Command.writeByte, Panel.Conducts, Panel.Takes, Command.isRead]
        exact ⟨⟨hp.1, by decide, rfl⟩, by simp, hp.1, rfl⟩
    | _ => simp [Operation.keepsPanel] at hkeeps

end FmTuner
