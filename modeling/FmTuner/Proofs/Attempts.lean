import FmTuner.Proofs.Deeds

/-!
# Attempts

A call is worked off in place: whatever it has done to the chip before it is refused stays done. It
turns out that a refused call has done nothing, and an accepted one what `Chip.call` says. A
transcript is what a client sees of calls that are made one after another; the deeds that were
confirmed in it are the past of the chip.
-/

namespace FmTuner

namespace Chip

/-! ## Working in place -/

/-- Work on a chip, which a refusal breaks off without taking anything back. -/
abbrev Work := OptionT (StateM Chip)

namespace Work

def write (address : UInt8) (value : UInt16) : Work Unit := do
  if h : address.toNat < 32 then
    modify fun c ↦ { c with registers := c.registers.set address.toNat value h }
    if address = Register.frequency then modify fun c ↦ { c with frequencyWritten := true }
    else if address = Register.searchTuneMode then modify fun c ↦ c.searchTune value.toUInt8
  else failure

def read (address : UInt8) : Work UInt16 := do
  let c ← get
  if address = Register.frequency then return c.tuned.toRegister
  else if address = Register.signal then return (c.rssiAt c.tuned).toUInt16
  else if address = Register.flags then
    if 0 < c.busyReads then
      set { c with busyReads := c.busyReads - 1 }
      return 0
    else return c.flags
  else OptionT.mk (pure (c.register? address))

/-- A register access, with the bytes that follow the kind of access. -/
def access (address kind : UInt8) (data : List UInt8) : Work Callback := do
  if kind = Register.writeAccess then
    match valueOf? data with
    | some value =>
        write address value
        return .vendor Register.confirmOpcode [0, address, Register.writeAccess]
    | none => failure
  else if kind = Register.readAccess then
    match data with
    | [length] =>
        if 1 ≤ length ∧ length ≤ 2 then return answerTo address length (← read address)
        else failure
    | _ => failure
  else failure

def call : Call → Work Callback
  | .power on => do
      modify (·.power on)
      return .power on
  | .vendor opcode payload => do
      if !(← get).powered || opcode != Register.accessOpcode then failure
      else
        match payload with
        | address :: kind :: data => access address kind data
        | _ => failure

end Work

/-- Makes a call, which is refused if it has no answer. -/
def attempt (c : Chip) (call : Call) : Option Callback × Chip := (Work.call call).run.run c

/-- The outcome of work that is either done as a whole or leaves the chip as it is. -/
def outcome {α : Type} (c : Chip) : Option (Chip × α) → Option α × Chip
  | some (d, a) => (some a, d)
  | none => (none, c)

variable {c d : Chip} {call : Call} {deed : Deed} {answer : Callback}

theorem run_write (c : Chip) (address : UInt8) (value : UInt16) :
    (Work.write address value).run.run c = c.outcome ((c.write address value).map (·, ())) := by
  unfold Work.write Chip.write
  split
  next h =>
    split
    · rfl
    · split <;> rfl
  next h => rfl

theorem run_get {α : Type} (c : Chip) (rest : Chip → Work α) :
    (get >>= rest).run.run c = (rest c).run.run c := rfl

/-- Nothing can be refused once all that is left is to answer. -/
theorem run_return {α β : Type} {work : Work α} {result : Option (Chip × α)}
    (h : work.run.run c = c.outcome result) (answer : α → β) :
    (work >>= fun a ↦ pure (answer a)).run.run c =
      c.outcome (result.bind fun r ↦ some (r.1, answer r.2)) := by
  rw [OptionT.run_bind, Option.elimM, StateT.run_bind, h]
  cases result <;> rfl

theorem run_read (c : Chip) (address : UInt8) :
    (Work.read address).run.run c = c.outcome (c.read address) := by
  rw [Work.read, run_get, read]
  split
  · rfl
  · split
    · rfl
    · split
      · split <;> rfl
      · cases c.register? address <;> rfl

theorem run_access (hpowered : c.powered = true) (address kind : UInt8) (data : List UInt8) :
    (Work.access address kind data).run.run c =
      c.outcome (c.command Register.accessOpcode (address :: kind :: data)) := by
  simp only [command, hpowered, Bool.not_true, bne_self_eq_false, Bool.or_self,
    Bool.false_eq_true, if_false]
  unfold Work.access
  split
  · cases valueOf? data with
    | none => rfl
    | some value =>
        refine (run_return (c.run_write address value) _).trans ?_
        rw [Option.bind_map]
        rfl
  · split
    · rcases data with _ | ⟨length, _ | _⟩
      · rfl
      · dsimp only
        split
        · exact run_return (c.run_read address) _
        · rfl
      · rfl
    · rfl

/-- A call that is refused leaves the chip as it was. -/
theorem attempt_eq (c : Chip) (call : Call) : c.attempt call = c.outcome (c.call call) := by
  cases call with
  | power on => rfl
  | vendor opcode payload =>
      change (get >>= fun c ↦ _ : Work Callback).run.run c = c.outcome (c.command opcode payload)
      rw [run_get]
      by_cases hready : (!c.powered || opcode != Register.accessOpcode) = true
      · simp only [command, hready, if_true]
        rfl
      · obtain ⟨hpowered, rfl⟩ : c.powered = true ∧ opcode = Register.accessOpcode := by
          simpa using hready
        rw [if_neg hready]
        rcases payload with _ | ⟨address, _ | ⟨kind, data⟩⟩
        · simp only [command, hready]
          rfl
        · simp only [command, hready]
          rfl
        · exact run_access hpowered address kind data

theorem attempt_of_call (h : c.call call = some (d, answer)) :
    c.attempt call = (some answer, d) := by
  rw [attempt_eq, h, outcome]

theorem attempt_of_refused (h : c.call call = none) : c.attempt call = (none, c) := by
  rw [attempt_eq, h, outcome]

theorem attempt_eq_none : (c.attempt call).1 = none ↔ c.call call = none := by
  rw [attempt_eq]
  cases c.call call <;> simp [outcome]

theorem attempt_read (hpowered : c.powered = true) {address length : UInt8} {word : UInt16}
    (hlength : length = 1 ∨ length = 2) (hread : c.read address = some (d, word)) :
    c.attempt (.vendor Register.accessOpcode [address, Register.readAccess, length]) =
      (some (answerTo address length word), d) := by
  have hdeed : Call.deed? (.vendor Register.accessOpcode [address, Register.readAccess, length]) =
      some (.read address length) := by
    rcases hlength with rfl | rfl <;> rfl
  exact attempt_of_call (call_of_does hdeed (.read hpowered hread))

/-! ## Refusals -/

/-- Why a chip refuses a call. -/
inductive Refuses (c : Chip) : Call → Prop where
  | unpowered {opcode : UInt8} {payload : List UInt8} (h : c.powered = false) :
      Refuses c (.vendor opcode payload)
  | opcode {opcode : UInt8} {payload : List UInt8} (h : opcode ≠ Register.accessOpcode) :
      Refuses c (.vendor opcode payload)
  | short {opcode : UInt8} {payload : List UInt8} (h : payload.length < 2) :
      Refuses c (.vendor opcode payload)
  | access {opcode address kind : UInt8} {data : List UInt8} (hwrite : kind ≠ Register.writeAccess)
      (hread : kind ≠ Register.readAccess) : Refuses c (.vendor opcode (address :: kind :: data))
  | value {opcode address : UInt8} {data : List UInt8} (h : data.length ≠ 1 ∧ data.length ≠ 2) :
      Refuses c (.vendor opcode (address :: Register.writeAccess :: data))
  | length {opcode address : UInt8} {data : List UInt8} (h : data ≠ [1] ∧ data ≠ [2]) :
      Refuses c (.vendor opcode (address :: Register.readAccess :: data))
  | register {opcode address kind : UInt8} {data : List UInt8} (h : 32 ≤ address.toNat) :
      Refuses c (.vendor opcode (address :: kind :: data))

/-- Of the chip itself only the power matters. -/
theorem Refuses.of_powered (h : c.Refuses call) (hpowered : d.powered = c.powered) :
    d.Refuses call := by
  cases h with
  | unpowered h => exact .unpowered (hpowered.trans h)
  | opcode h => exact .opcode h
  | short h => exact .short h
  | access hwrite hread => exact .access hwrite hread
  | value h => exact .value h
  | length h => exact .length h
  | register h => exact .register h

theorem exists_value {data : List UInt8} (h : data.length = 1 ∨ data.length = 2) :
    ∃ value, valueOf? data = some value := by
  rcases data with _ | ⟨low, _ | ⟨high, _ | _⟩⟩
  · simp at h
  · exact ⟨_, rfl⟩
  · exact ⟨_, rfl⟩
  · simp at h

/-- A powered chip takes what is written to a register that it has. -/
theorem exists_call_write (hpowered : c.powered = true) {address : UInt8} {data : List UInt8}
    (haddress : address.toNat < 32) (hdata : data.length = 1 ∨ data.length = 2) :
    ∃ d answer, c.call (.vendor Register.accessOpcode (address :: Register.writeAccess :: data)) =
      some (d, answer) := by
  obtain ⟨value, hvalue⟩ := exists_value hdata
  obtain ⟨d, hwrite, -⟩ := c.write_keeps haddress value
  have hdeed : Call.deed? (.vendor Register.accessOpcode
      (address :: Register.writeAccess :: data)) = some (.write address value) := by
    simp [Call.deed?, hvalue]
  exact ⟨d, _, call_of_does hdeed (.write hpowered hwrite)⟩

/-- An access to a register can be refused for its kind, its data or its address. -/
theorem refuses_of_access (hpowered : c.powered = true) {address kind : UInt8} {data : List UInt8}
    (h : c.call (.vendor Register.accessOpcode (address :: kind :: data)) = none) :
    c.Refuses (.vendor Register.accessOpcode (address :: kind :: data)) := by
  by_cases haddress : address.toNat < 32
  · by_cases hwrite : kind = Register.writeAccess
    · subst hwrite
      refine .value (not_or.mp fun hdata ↦ ?_)
      obtain ⟨d, answer, hcall⟩ := exists_call_write hpowered haddress hdata
      cases h.symm.trans hcall
    · by_cases hread : kind = Register.readAccess
      · subst hread
        refine .length (not_or.mp fun hdata ↦ ?_)
        obtain ⟨length, rfl, hlength⟩ :
            ∃ length, data = [length] ∧ (length = 1 ∨ length = 2) := by
          rcases hdata with rfl | rfl <;> simp
        obtain ⟨d, word, hword⟩ := c.exists_read haddress
        have hattempt := attempt_read hpowered hlength hword
        cases (attempt_of_refused h).symm.trans hattempt
      · exact .access hwrite hread
  · exact .register (Nat.le_of_not_lt haddress)

theorem refuses_of_call (h : c.call call = none) : c.Refuses call := by
  cases call with
  | power on => cases h
  | vendor opcode payload =>
      by_cases hpowered : c.powered = true
      · by_cases hopcode : opcode = Register.accessOpcode
        · subst hopcode
          rcases payload with _ | ⟨address, _ | ⟨kind, data⟩⟩
          · exact .short (by simp)
          · exact .short (by simp)
          · exact refuses_of_access hpowered h
        · exact .opcode hopcode
      · exact .unpowered (Bool.eq_false_iff.mpr hpowered)

theorem valueOf?_eq_none {data : List UInt8} (h : data.length ≠ 1 ∧ data.length ≠ 2) :
    valueOf? data = none := by
  rcases data with _ | ⟨low, _ | ⟨high, _ | _⟩⟩
  · rfl
  · simp at h
  · simp at h
  · rfl

theorem write_eq_none {address : UInt8} (h : 32 ≤ address.toNat) (value : UInt16) :
    c.write address value = none :=
  dif_neg (Nat.not_lt_of_le h)

theorem read_eq_none {address : UInt8} (h : 32 ≤ address.toNat) : c.read address = none := by
  have hne : ∀ known : UInt8, known.toNat < 32 → address ≠ known := by
    rintro _ hknown rfl
    exact absurd h (Nat.not_le_of_lt hknown)
  rw [read, if_neg (hne _ (by decide)), if_neg (hne _ (by decide)), if_neg (hne _ (by decide)),
    register?, Vector.getElem?_eq_none h]
  rfl

theorem call_of_refuses (h : c.Refuses call) : c.call call = none := by
  cases h with
  | unpowered h => simp [Chip.call, command, h]
  | opcode h => simp [Chip.call, command, h]
  | @short opcode payload h =>
      rcases payload with _ | ⟨address, _ | ⟨kind, data⟩⟩
      · simp [Chip.call, command]
      · simp [Chip.call, command]
      · exact absurd h (by simp)
  | access hwrite hread => simp [Chip.call, command, hwrite, hread]
  | value h => simp [Chip.call, command, valueOf?_eq_none h]
  | @length opcode address data h =>
      have hne : Register.readAccess ≠ Register.writeAccess := by decide
      rcases data with _ | ⟨length, _ | _⟩
      · simp [Chip.call, command, hne]
      · have hlength : ¬ (1 ≤ length ∧ length ≤ 2) := by
          simp only [ne_eq, List.cons.injEq, and_true] at h
          grind
        simp [Chip.call, command, hne, hlength]
      · simp [Chip.call, command, hne]
  | @register opcode address kind data h =>
      rcases data with _ | ⟨_, _ | _⟩ <;>
        simp [Chip.call, command, write_eq_none h, read_eq_none h]

/-- A chip refuses a call for these reasons and for no other. -/
theorem call_eq_none_iff : c.call call = none ↔ c.Refuses call :=
  ⟨refuses_of_call, call_of_refuses⟩

/-! ## Transcripts -/

/-- Calls that are made one after another, each with its answer. -/
def transcript (c : Chip) : List Call → List (Call × Option Callback)
  | [] => []
  | call :: rest => (call, (c.attempt call).1) :: (c.attempt call).2.transcript rest

def after (c : Chip) (calls : List Call) : Chip := calls.foldl (fun c call ↦ (c.attempt call).2) c

theorem after_cons (c : Chip) (call : Call) (rest : List Call) :
    c.after (call :: rest) = (c.attempt call).2.after rest := rfl

end Chip

/-- The deeds that a transcript confirms, the latest first. -/
def Deed.confirmed (transcript : List (Call × Option Callback)) : List Deed :=
  (transcript.filterMap fun (call, answer) ↦ if answer.isSome then call.deed? else none).reverse

namespace Chip

/-- A transcript tells all that has been done to the chip. -/
theorem serves_after (c : Chip) (calls : List Call) :
    c.Serves (Deed.confirmed (c.transcript calls)) (c.after calls) := by
  induction calls generalizing c with
  | nil => exact .start
  | cons call rest ih =>
      cases hcall : c.call call with
      | none =>
          have hattempt := attempt_of_refused hcall
          simpa [transcript, after, hattempt, Deed.confirmed] using ih c
      | some result =>
          obtain ⟨d, answer⟩ := result
          obtain ⟨deed, hdeed, -⟩ := does_of_call hcall
          have hattempt := attempt_of_call hcall
          simpa [transcript, after, hattempt, Deed.confirmed, hdeed] using
            (Serves.call .start hdeed hcall).append (ih d)

end Chip

end FmTuner
