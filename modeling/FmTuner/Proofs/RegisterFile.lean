import FmTuner.Proofs.Attempts

/-!
# The register file

Most registers are plain memory: whatever is done to the chip in between, they give back the last
value that was written to them while the power was on. Of calls that were refused nothing is ever
seen again.
-/

namespace FmTuner

/-! ## The last value written -/

namespace Deed

/-- The value that a deed writes to a register. -/
def value? (address : UInt8) : Deed → Option UInt16
  | .write other value => if address = other then some value else none
  | _ => none

/-- The last value written to a register since the power was last switched off. -/
def lastWritten? (address : UInt8) (past : List Deed) : Option UInt16 :=
  (past.takeWhile (· ≠ .power false)).findSome? (value? address)

theorem leaves_eq (address : UInt8) (before : UInt16) {deed : Deed} (h : deed ≠ .power false) :
    deed.leaves address before = (deed.value? address).getD before := by
  cases deed with
  | power on =>
      cases on with
      | true => rfl
      | false => exact absurd rfl h
  | write other value =>
      by_cases hother : address = other <;> simp [leaves, value?, hother]
  | read => rfl

/-- The past leaves in a register what was last written to it, and zero without any write. -/
theorem content_eq (address : UInt8) (past : List Deed) :
    content address past = (lastWritten? address past).getD 0 := by
  induction past with
  | nil => rfl
  | cons deed past ih =>
      change deed.leaves address (content address past) = _
      by_cases hoff : deed = .power false
      · subst hoff
        rfl
      · rw [leaves_eq address _ hoff, ih, lastWritten?, lastWritten?,
          List.takeWhile_cons_of_pos (by simpa using hoff), List.findSome?_cons]
        cases deed.value? address <;> rfl

end Deed

/-! ## Reading back -/

namespace Register

/-- A register that reads as it was written. The others tell the tuner's state. -/
structure IsPlain (address : UInt8) : Prop where
  inFile : address.toNat < 32
  frequency : address ≠ Register.frequency
  signal : address ≠ Register.signal
  flags : address ≠ Register.flags

end Register

namespace Chip

variable {c d : Chip} {call : Call}

theorem read_plain {address : UInt8} (h : Register.IsPlain address) :
    c.read address = some (c, c.register address) := by
  rw [read, if_neg h.frequency, if_neg h.signal, if_neg h.flags, register, register?,
    Vector.getElem?_eq_getElem h.inFile]
  rfl

theorem attempt_plain (hpowered : c.powered = true) {address length : UInt8}
    (h : Register.IsPlain address) (hlength : length = 1 ∨ length = 2) :
    c.attempt (.vendor Register.accessOpcode [address, Register.readAccess, length]) =
      (some (answerTo address length (c.register address)), c) :=
  attempt_read hpowered hlength (read_plain h)

theorem answerTo_one (address : UInt8) (word : UInt16) :
    answerTo address 1 word =
      .vendor Register.confirmOpcode [0, address, Register.readAccess, word.toUInt8] := by
  have hlow : UInt8.ofNat (word.toNat % 256) = word.toUInt8 := by
    apply UInt8.toNat_inj.mp
    simp
  rw [← hlow]
  rfl

/-! ## Refusals -/

theorem attempt_refused (h : (c.attempt call).1 = none) : (c.attempt call).2 = c := by
  rw [attempt_of_refused (attempt_eq_none.mp h)]

/-- Whatever a new chip has been called for, as long as the power is on a plain register reads as
the last value written to it, two bytes or the low one of them. A call is refused for the reasons in
`Refuses` only, and then everything goes on as if it had not been made. -/
theorem reads_last_written_and_refusals_leave_nothing (settings : ChipSettings)
    (history : List Call) :
    let c := (ofSettings settings).after history
    let past := Deed.confirmed ((ofSettings settings).transcript history)
    (c.powered = true → ∀ address, Register.IsPlain address →
      let word := (Deed.lastWritten? address past).getD 0
      (c.attempt (.vendor Register.accessOpcode [address, Register.readAccess, 2])).1 =
          some (.vendor Register.confirmOpcode
            ([0, address, Register.readAccess] ++ Bytes.ofWord word)) ∧
        (c.attempt (.vendor Register.accessOpcode [address, Register.readAccess, 1])).1 =
          some (.vendor Register.confirmOpcode
            [0, address, Register.readAccess, word.toUInt8])) ∧
      ∀ call, ((c.attempt call).1 = none ↔ c.Refuses call) ∧
        ((c.attempt call).1 = none →
          ∀ later, (c.attempt call).2.transcript later = c.transcript later) := by
  intro c past
  refine ⟨fun hpowered address hplain ↦ ?_, fun call ↦ ⟨?_, fun hrefused later ↦ ?_⟩⟩
  · have hword : c.register address = (Deed.lastWritten? address past).getD 0 := by
      rw [← Deed.content_eq]
      exact ((ofSettings settings).serves_after history).register address
    rw [attempt_plain hpowered hplain (.inr rfl), attempt_plain hpowered hplain (.inl rfl), hword]
    exact ⟨rfl, congrArg some (answerTo_one address _)⟩
  · exact attempt_eq_none.trans call_eq_none_iff
  · rw [attempt_refused hrefused]

theorem short_write_reads_back :
    let history := [Call.power true,
      .vendor Register.accessOpcode [Register.searchControl, Register.writeAccess, 0xa8, 0x12],
      .vendor Register.accessOpcode [Register.searchControl, Register.writeAccess, 0xa8],
      .vendor Register.accessOpcode [Register.searchTuneMode, Register.writeAccess,
        Register.autoSearch],
      .vendor Register.accessOpcode [Register.searchControl, 2, 0xff]]
    (((ofSettings {}).after history).attempt (.vendor Register.accessOpcode
      [Register.searchControl, Register.readAccess, 2])).1 =
        some (.vendor Register.confirmOpcode
          [0, Register.searchControl, Register.readAccess, 0xa8, 0]) := by
  intro history
  have hstations : ofSettings {} = { stations := ChipSettings.stations {}, searchPolls := 1 } := by
    rw [ofSettings, List.mergeSort_of_pairwise (by decide)]
  have hpowered : ((ofSettings {}).after history).powered = true := by
    rw [hstations]
    decide +kernel
  have hpast : Deed.lastWritten? Register.searchControl
      (Deed.confirmed ((ofSettings {}).transcript history)) = some 0xa8 := by
    rw [hstations]
    decide +kernel
  have hplain : Register.IsPlain Register.searchControl :=
    ⟨by decide, by decide, by decide, by decide⟩
  have hreads := (reads_last_written_and_refusals_leave_nothing {} history).1 hpowered _ hplain
  rw [hpast] at hreads
  exact hreads.1

end Chip

end FmTuner
