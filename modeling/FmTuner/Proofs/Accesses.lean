import FmTuner.Proofs.Searching

/-!
# Register accesses

The chip answers an access to a register by repeating the register and the kind of the access; what
was read stands behind that. A command takes an answer for its own exactly if all of this fits, down
to the number of bytes, and everything else is a protocol error to it. So the chip's answer to one
access is accepted by the command that made it, and by no command that makes another access.
-/

namespace FmTuner

/-- An access to a register, as far as its answer shows it. -/
structure Access where
  register : UInt8
  /-- `Register.writeAccess` or `Register.readAccess`. -/
  kind : UInt8
  /-- How many bytes come back. -/
  length : Nat
  deriving DecidableEq, Repr

namespace Access

def AnsweredBy (a : Access) (callback : Callback) : Prop :=
  ∃ data : List UInt8, data.length = a.length ∧
    callback = .vendor Register.confirmOpcode (0 :: a.register :: a.kind :: data)

/-- A callback answers one access at most. -/
theorem AnsweredBy.unique {a b : Access} {callback : Callback} (ha : a.AnsweredBy callback)
    (hb : b.AnsweredBy callback) : a = b := by
  obtain ⟨data, hlength, rfl⟩ := ha
  obtain ⟨data', hlength', heq⟩ := hb
  obtain ⟨aRegister, aKind, aLength⟩ := a
  obtain ⟨bRegister, bKind, bLength⟩ := b
  cases heq
  cases hlength
  cases hlength'
  rfl

end Access

namespace Command

/-- The access to a register that a command makes. -/
def access? : Command → Option Access
  | .write register _ => some ⟨register, Register.writeAccess, 0⟩
  | .read register length _ _ => some ⟨register, Register.readAccess, length.toNat⟩
  | .power _ | .delay _ => none

/-- A register that there is, and as many bytes as are written or decoded. -/
def Addressable : Command → Prop
  | .write register value => register.toNat < 32 ∧ (value.length = 1 ∨ value.length = 2)
  | .read register length kind _ => register.toNat < 32 ∧ length.toNat = kind.length
  | .power _ | .delay _ => False

theorem Addressable.readsWhole {command : Command} (h : command.Addressable) :
    command.ReadsWhole := by
  cases command with
  | read => exact h.2
  | _ => trivial

theorem answersRead_iff {register length : UInt8} {opcode : UInt16} {payload : List UInt8} :
    answersRead register length opcode payload = true ↔
      Access.AnsweredBy ⟨register, Register.readAccess, length.toNat⟩ (.vendor opcode payload) := by
  simp only [answersRead, Bool.and_eq_true, beq_iff_eq, Access.AnsweredBy, Callback.vendor.injEq]
  constructor
  · rintro ⟨⟨hopcode, hlength⟩, hecho⟩
    refine ⟨payload.drop 3, by rw [List.length_drop]; omega, hopcode, ?_⟩
    rw [← List.take_append_drop 3 payload, hecho]
    simp
  · rintro ⟨data, hlength, hopcode, rfl⟩
    refine ⟨⟨hopcode, ?_⟩, rfl⟩
    simp only [List.length_cons]
    omega

theorem complete_read_eq_error_iff {register length : UInt8} {kind : ReadKind}
    {reading : Option Reading} {opcode : UInt16} {payload : List UInt8} {band : Band}
    {completed : Command} :
    (read register length kind reading).complete (.vendor opcode payload) band =
        .ok (completed, .error) ↔
      ¬ answersRead register length opcode payload = true ∧
        completed = .read register length kind reading := by
  by_cases hanswers : answersRead register length opcode payload = true
  · -- Bytes that were read are decoded, and no decoded reading is a protocol error.
    refine ⟨fun h ↦ ?_, fun h ↦ absurd hanswers h.1⟩
    obtain ⟨found, hdecodes, -⟩ := decodes_of_answered hanswers h
    exact absurd rfl hdecodes.ne_error
  · simp [complete, hanswers, eq_comm]

/-- A command that accesses a register has a protocol error from the callbacks that do not answer
its access, and stays as it was. -/
theorem complete_eq_error_iff {command completed : Command} {a : Access}
    (ha : command.access? = some a) {callback : Callback} {band : Band} :
    command.complete callback band = .ok (completed, .error) ↔
      ¬ a.AnsweredBy callback ∧ completed = command := by
  cases command with
  | power | delay => simp [access?] at ha
  | write register value =>
      cases ha
      cases callback with
      | vendor opcode payload =>
          by_cases hfits : opcode = Register.confirmOpcode ∧
              payload = [0, register, Register.writeAccess] <;>
            simp [complete, Access.AnsweredBy, hfits, eq_comm]
      | _ => simp [complete, Access.AnsweredBy, eq_comm]
  | read register length kind reading =>
      cases ha
      cases callback with
      | vendor opcode payload => rw [complete_read_eq_error_iff, answersRead_iff]
      | _ => simp [complete, Access.AnsweredBy, eq_comm]

end Command

/-- The chip answers every access to a register that it has. -/
theorem Chip.command_answers {c : Chip} (hpowered : c.powered = true) {command : Command}
    (h : command.Addressable) :
    ∃ payload d answer a, command.payload = some payload ∧
      c.command Register.accessOpcode payload = some (d, answer) ∧
        command.access? = some a ∧ a.AnsweredBy answer := by
  cases command with
  | power | delay => exact h.elim
  | write register value =>
      obtain ⟨hregister, hlength⟩ := h
      obtain ⟨word, hword⟩ : ∃ word, valueOf? value = some word := by
        rcases hlength with hlength | hlength
        · obtain ⟨low, rfl⟩ := List.length_eq_one_iff.mp hlength
          exact ⟨_, rfl⟩
        · obtain ⟨low, high, rfl⟩ := List.length_eq_two.mp hlength
          exact ⟨_, rfl⟩
      obtain ⟨d, hwrite, -⟩ := c.write_keeps hregister word
      exact ⟨_, d, _, _, rfl, issues_write hpowered hword hwrite, rfl, [], rfl, rfl⟩
  | read register length kind reading =>
      obtain ⟨hregister, hlength⟩ := h
      obtain ⟨d, word, hread⟩ := c.exists_read hregister
      exact ⟨_, d, _, _, rfl, issues_read hpowered kind reading hlength hread, rfl,
        Command.answersRead_iff.mp (answersRead_answer hlength word)⟩

/-- The chip's answer to an access is accepted by the command that made it, whatever the band, and
is a protocol error to every command that makes another access. In general a command accepts only
the callbacks that answer its access; by a protocol error it is left as it was. -/
theorem answers_fit_own_access :
    (∀ (c : Chip) (command : Command), c.powered = true → command.Addressable →
      ∃ payload d answer, command.payload = some payload ∧
        c.command Register.accessOpcode payload = some (d, answer) ∧
        (∀ band : Band, band.FitsWords → ∃ completed verdict,
          command.complete answer band = .ok (completed, verdict) ∧ verdict ≠ .error ∧
            (command.isRead = false → verdict = .success)) ∧
        ∀ (other : Command) (b : Access), other.access? = some b → command.access? ≠ some b →
          ∀ band : Band, other.complete answer band = .ok (other, .error)) ∧
    ∀ (command : Command) (a : Access), command.access? = some a →
      ∀ (callback : Callback) (band : Band) (completed : Command),
        command.complete callback band = .ok (completed, .error) ↔
          ¬ a.AnsweredBy callback ∧ completed = command := by
  refine ⟨fun c command hpowered h ↦ ?_, fun command a ha callback band completed ↦
    Command.complete_eq_error_iff ha⟩
  obtain ⟨payload, d, answer, a, hpayload, hcommand, ha, hanswer⟩ := Chip.command_answers hpowered h
  refine ⟨payload, d, answer, hpayload, hcommand, fun band hband ↦ ?_, fun other b hb hne band ↦ ?_⟩
  · obtain ⟨completed, verdict, hcomplete, -⟩ :=
      Command.exists_complete hband h.readsWhole answer
    have hverdict : verdict ≠ .error := by
      rintro rfl
      exact ((Command.complete_eq_error_iff ha).mp hcomplete).1 hanswer
    exact ⟨completed, verdict, hcomplete, hverdict, fun hwrite ↦
      ((Command.verdict_of_complete hcomplete).2 hwrite).resolve_right hverdict⟩
  · have hother : ¬ b.AnsweredBy answer := by
      intro hanswered
      exact hne (hanswer.unique hanswered ▸ ha)
    exact (Command.complete_eq_error_iff hb).mpr ⟨hother, rfl⟩

/-- A chip that is on and receives nothing. -/
def Chip.quiet : Chip where
  stations := []
  searchPolls := 0
  powered := true

theorem status_answer_fits_poll :
    (Chip.quiet.command Register.accessOpcode [0x12, 1, 2] =
      some (Chip.quiet, .vendor 0xfc15 [0, 0x12, 1, 0, 0])) ∧
    (∃ completed verdict,
      Command.pollStatus.complete (.vendor 0xfc15 [0, 0x12, 1, 0, 0]) .japan =
        .ok (completed, verdict) ∧ verdict ≠ .error) ∧
    (Command.writeByte 0x12 0).complete (.vendor 0xfc15 [0, 0x12, 1, 0, 0]) .japan =
      .ok (.writeByte 0x12 0, .error) ∧
    Command.pollStatus.complete (.vendor 0xfc15 [0, 0x12, 1, 0]) .japan =
      .ok (.pollStatus, .error) := by
  have hcommand : Chip.quiet.command Register.accessOpcode [0x12, 1, 2] =
      some (Chip.quiet, .vendor 0xfc15 [0, 0x12, 1, 0, 0]) := by decide
  obtain ⟨payload, d, answer, hpayload, hanswer, haccepts, hrejects⟩ :=
    answers_fit_own_access.1 Chip.quiet .pollStatus rfl ⟨by decide, rfl⟩
  cases hpayload
  cases hcommand.symm.trans hanswer
  obtain ⟨completed, verdict, hcomplete, hverdict, -⟩ := haccepts .japan (by decide)
  refine ⟨hcommand, ⟨completed, verdict, hcomplete, hverdict⟩,
    hrejects (.writeByte 0x12 0) _ rfl (by decide) .japan, ?_⟩
  refine (answers_fit_own_access.2 .pollStatus _ rfl _ _ _).mpr ⟨?_, rfl⟩
  rintro ⟨data, hlength, heq⟩
  cases heq
  simp at hlength

end FmTuner
