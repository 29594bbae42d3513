import FmTuner.Proofs.Panel

/-!
# Deeds

What a call asks of the chip is a deed: to switch the power, to write a register or to read one. The
chip refuses every call that asks for nothing of the kind. What a deed does to the chip and how it is
answered is said once for all calls; from then on the past of a chip is a list of deeds, which tells
what its registers hold and where it will begin to search.
-/

namespace FmTuner

inductive Deed where
  | power (on : Bool)
  | write (address : UInt8) (value : UInt16)
  | read (address length : UInt8)
  deriving DecidableEq, Repr

/-- The deed that a call asks for. -/
def Call.deed? : Call → Option Deed
  | .power on => some (.power on)
  | .vendor opcode (address :: access :: data) =>
      if opcode ≠ Register.accessOpcode then none
      else if access = Register.writeAccess then (Chip.valueOf? data).map (.write address)
      else if access = Register.readAccess then
        match data with
        | [length] => if 1 ≤ length ∧ length ≤ 2 then some (.read address length) else none
        | _ => none
      else none
  | .vendor .. => none

namespace Deed

/-- The mode that is written, by a deed that writes the search and tune mode. -/
def mode? : Deed → Option UInt8
  | .write address value => if address = Register.searchTuneMode then some value.toUInt8 else none
  | _ => none

/-- Whether the chip is told to tune or to search. -/
def retunes (deed : Deed) : Bool :=
  deed.mode? = some Register.preset || deed.mode? = some Register.autoSearch

/-- Whether the mode that is written is one that the chip knows. -/
def steers (deed : Deed) : Bool := deed.retunes || deed.mode? = some Register.terminate

def writesFrequency : Deed → Bool
  | .write address _ => address = Register.frequency
  | _ => false

def readsFlags : Deed → Bool
  | .read address _ => address = Register.flags
  | _ => false

/-- What a register holds after a deed. Without power everything is lost. -/
def leaves (address : UInt8) (before : UInt16) : Deed → UInt16
  | .power false => 0
  | .write other value => if address = other then value else before
  | _ => before

/-- What the deeds of the past, of which the latest stands first, have left in a register. -/
def content (address : UInt8) (past : List Deed) : UInt16 :=
  past.foldr (fun deed before ↦ deed.leaves address before) 0

/-- Whether the frequency register was written since the chip last tuned or searched. -/
def startGiven : List Deed → Bool
  | [] => false
  | deed :: past => deed.writesFrequency || (!deed.retunes && startGiven past)

end Deed

namespace Chip

/-- The answer to a read. -/
def answerTo (address length : UInt8) (word : UInt16) : Callback :=
  .vendor Register.confirmOpcode
    ([0, address, Register.readAccess] ++ (Bytes.ofWord word).take length.toNat)

/-- What a deed makes of a chip, and how the chip answers. -/
inductive Does (c : Chip) : Deed → Chip → Callback → Prop where
  | power (on : Bool) : Does c (.power on) (c.power on) (.power on)
  | write {address : UInt8} {value : UInt16} {d : Chip} (hpowered : c.powered = true)
      (hwrite : c.write address value = some d) :
      Does c (.write address value) d
        (.vendor Register.confirmOpcode [0, address, Register.writeAccess])
  | read {address length : UInt8} {word : UInt16} {d : Chip} (hpowered : c.powered = true)
      (hread : c.read address = some (d, word)) :
      Does c (.read address length) d (answerTo address length word)

variable {c d e : Chip} {call : Call} {deed : Deed} {answer : Callback}

/-- Everything that a call can do to a chip. -/
theorem does_of_call (h : c.call call = some (d, answer)) :
    ∃ deed, call.deed? = some deed ∧ c.Does deed d answer := by
  cases call with
  | power on =>
      cases h
      exact ⟨.power on, rfl, .power on⟩
  | vendor opcode payload =>
      simp only [Chip.call, command] at h
      split at h
      next => cases h
      next hready =>
        obtain ⟨hpowered, rfl⟩ : c.powered = true ∧ opcode = Register.accessOpcode := by
          simpa using hready
        split at h
        next address access data =>
          split at h
          next haccess =>
            obtain ⟨value, hvalue, h⟩ := Option.bind_eq_some_iff.mp h
            obtain ⟨e, hwrite, h⟩ := Option.bind_eq_some_iff.mp h
            cases h
            refine ⟨.write address value, ?_, .write hpowered hwrite⟩
            simp [Call.deed?, haccess, hvalue]
          next hwrites =>
            split at h
            next haccess =>
              split at h
              next length =>
                split at h
                next hlength =>
                  obtain ⟨⟨e, word⟩, hread, h⟩ := Option.bind_eq_some_iff.mp h
                  cases h
                  subst haccess
                  refine ⟨.read address length, ?_, .read hpowered hread⟩
                  simp [Call.deed?, hwrites, hlength]
                next => cases h
              next => cases h
            next => cases h
        next => cases h

theorem call_of_does (hdeed : call.deed? = some deed) (h : c.Does deed d answer) :
    c.call call = some (d, answer) := by
  unfold Call.deed? at hdeed
  split at hdeed
  next =>
    cases hdeed
    cases h
    rfl
  next opcode address access data =>
    split at hdeed
    next => cases hdeed
    next hopcode =>
      rw [ne_eq, Decidable.not_not] at hopcode
      subst hopcode
      split at hdeed
      next haccess =>
        obtain ⟨value, hvalue, rfl⟩ := Option.map_eq_some_iff.mp hdeed
        cases h with
        | write hpowered hwrite =>
            subst haccess
            simp [Chip.call, command, hpowered, hvalue, hwrite]
      next hwrites =>
        split at hdeed
        next haccess =>
          split at hdeed
          next length =>
            split at hdeed
            next hlength =>
              cases hdeed
              subst haccess
              cases h with
              | read hpowered hread =>
                  simp [Chip.call, command, hpowered, hwrites, hlength, hread, answerTo]
            next => cases hdeed
          next => cases hdeed
        next => cases hdeed
  next => cases hdeed

/-! ## What a deed does -/

/-- A write goes to a register that there is. Two of the registers have an effect when written. -/
theorem write_cases {address : UInt8} {value : UInt16} (h : c.write address value = some d) :
    ∃ haddress : address.toNat < 32,
      (address = Register.frequency ∧
        d = { c.put address haddress value with frequencyWritten := true }) ∨
      (address = Register.searchTuneMode ∧
        d = (c.put address haddress value).searchTune value.toUInt8) ∨
      (address ≠ Register.frequency ∧ address ≠ Register.searchTuneMode ∧
        d = c.put address haddress value) := by
  by_cases haddress : address.toNat < 32
  · refine ⟨haddress, ?_⟩
    rw [write, dif_pos haddress] at h
    split at h
    next hfrequency =>
      cases h
      exact .inl ⟨hfrequency, rfl⟩
    next hfrequency =>
      split at h
      next hmode =>
        cases h
        exact .inr (.inl ⟨hmode, rfl⟩)
      next hmode =>
        cases h
        exact .inr (.inr ⟨hfrequency, hmode, rfl⟩)
  · simp [write, haddress] at h

/-- Reading the flags counts a busy search down. No other read changes the chip. -/
theorem read_cases {address : UInt8} {word : UInt16} (h : c.read address = some (d, word)) :
    (address = Register.flags ∧ d = { c with busyReads := c.busyReads - 1 } ∧
      word = if 0 < c.busyReads then 0 else c.flags) ∨
    (address ≠ Register.flags ∧ d = c) := by
  by_cases haddress : address = Register.flags
  · subst haddress
    refine .inl ⟨rfl, ?_⟩
    by_cases hbusy : 0 < c.busyReads
    · cases (read_busy hbusy).symm.trans h
      exact ⟨rfl, (if_pos hbusy).symm⟩
    · have hdone : c.busyReads = 0 := Nat.eq_zero_of_not_pos hbusy
      cases (read_flags hdone).symm.trans h
      rw [if_neg hbusy, hdone]
      exact ⟨by rw [Nat.zero_sub, ← hdone], rfl⟩
  · refine .inr ⟨haddress, ?_⟩
    simp only [read, haddress, if_false] at h
    split at h
    · cases h
      rfl
    · split at h
      · cases h
        rfl
      · obtain ⟨value, -, heq⟩ := Option.map_eq_some_iff.mp h
        cases heq
        rfl

/-- Of a write nothing else is seen but what the register holds, and what tuning and searching make
of it. -/
theorem keeps_of_write {address : UInt8} {value : UInt16} (h : c.write address value = some d) :
    ∃ haddress : address.toNat < 32, (c.put address haddress value).Keeps d := by
  by_cases haddress : address.toNat < 32
  · obtain ⟨e, hwrite, hkeeps⟩ := c.write_keeps haddress value
    cases h.symm.trans hwrite
    exact ⟨haddress, hkeeps⟩
  · simp [write, haddress] at h

theorem Does.stations (h : c.Does deed d answer) :
    d.stations = c.stations ∧ d.searchPolls = c.searchPolls := by
  cases h with
  | power on => cases on <;> exact ⟨rfl, rfl⟩
  | write hpowered hwrite =>
      obtain ⟨haddress, hkeeps⟩ := keeps_of_write hwrite
      exact ⟨hkeeps.stations, hkeeps.searchPolls⟩
  | read hpowered hread =>
      have hkeeps := read_keeps hread
      exact ⟨hkeeps.stations, hkeeps.searchPolls⟩

theorem register_of_cleared (h : c.registers = Vector.replicate 32 0) (address : UInt8) :
    c.register address = 0 := by
  rw [Chip.register, register?, h, Vector.getElem?_replicate]
  split <;> rfl

theorem Does.register (h : c.Does deed d answer) (address : UInt8) :
    d.register address = deed.leaves address (c.register address) := by
  cases h with
  | power on =>
      cases on with
      | true => rfl
      | false => exact register_of_cleared rfl address
  | write hpowered hwrite =>
      obtain ⟨haddress, hkeeps⟩ := keeps_of_write hwrite
      exact (hkeeps.register address).trans (c.register_put haddress _ address)
  | read hpowered hread => exact (read_keeps hread).register address

theorem searchTune_frequencyWritten (c : Chip) (mode : UInt8) :
    (c.searchTune mode).frequencyWritten =
      (!(mode = Register.preset || mode = Register.autoSearch) && c.frequencyWritten) := by
  unfold searchTune
  split
  next hpreset => simp [hpreset, tunePreset]
  next hpreset =>
    split
    next hsearch => simp [hsearch, autoSearch]
    next hsearch => split <;> simp [hpreset, hsearch]

theorem Does.frequencyWritten (h : c.Does deed d answer) :
    d.frequencyWritten = (deed.writesFrequency || (!deed.retunes && c.frequencyWritten)) := by
  cases h with
  | power on => cases on <;> rfl
  | write hpowered hwrite =>
      obtain ⟨haddress, ⟨rfl, rfl⟩ | ⟨rfl, rfl⟩ | ⟨hfrequency, hmode, rfl⟩⟩ := write_cases hwrite
      · rfl
      · rw [searchTune_frequencyWritten]
        simp [Deed.writesFrequency, Deed.retunes, Deed.mode?, put, Register.searchTuneMode,
          Register.frequency]
      · simp [Deed.writesFrequency, Deed.retunes, Deed.mode?, hfrequency, hmode, put]
  | read hpowered hread =>
      rcases read_cases hread with ⟨-, rfl, -⟩ | ⟨-, rfl⟩ <;> rfl

/-! ## Deeds that leave the tuner alone -/

theorem searchTune_of_unknown {mode : UInt8} (hpreset : mode ≠ Register.preset)
    (hsearch : mode ≠ Register.autoSearch) (hterminate : mode ≠ Register.terminate) :
    c.searchTune mode = c := by
  rw [searchTune, if_neg hpreset, if_neg hsearch, if_neg hterminate]

/-- A write that does not steer the tuner changes registers only, and notes a new frequency. -/
theorem write_unsteered {address : UInt8} {value : UInt16} (hwrite : c.write address value = some d)
    (hsteers : (Deed.write address value).steers = false) :
    d = { c with registers := d.registers, frequencyWritten := d.frequencyWritten } := by
  obtain ⟨haddress, ⟨-, rfl⟩ | ⟨rfl, rfl⟩ | ⟨-, -, rfl⟩⟩ := write_cases hwrite
  · rfl
  · simp only [Deed.steers, Deed.retunes, Deed.mode?, if_true, Option.some.injEq,
      Bool.or_eq_false_iff, decide_eq_false_iff_not] at hsteers
    obtain ⟨⟨hpreset, hsearch⟩, hterminate⟩ := hsteers
    rw [searchTune_of_unknown hpreset hsearch hterminate]
    rfl
  · rfl

theorem Does.tuned (h : c.Does deed d answer) (hsteers : deed.steers = false) :
    d.tuned = c.tuned := by
  cases h with
  | power on => cases on <;> rfl
  | write hpowered hwrite => rw [write_unsteered hwrite hsteers]
  | read hpowered hread => rcases read_cases hread with ⟨-, rfl, -⟩ | ⟨-, rfl⟩ <;> rfl

/-- What is kept as long as the chip has its power. A read of the flags counts a busy search down. -/
structure Waits (c d : Chip) (polls : Nat) : Prop where
  powered : d.powered = true
  flags : d.flags = c.flags
  busyReads : d.busyReads = c.busyReads - polls

theorem Does.waits (h : c.Does deed d answer) (hpowered : c.powered = true)
    (hsteers : deed.steers = false) (hon : deed ≠ .power false) :
    c.Waits d (if deed.readsFlags then 1 else 0) := by
  cases h with
  | power on =>
      cases on with
      | true => exact ⟨rfl, rfl, rfl⟩
      | false => exact absurd rfl hon
  | write _ hwrite =>
      rw [write_unsteered hwrite hsteers]
      exact ⟨hpowered, rfl, rfl⟩
  | read _ hread =>
      rcases read_cases hread with ⟨rfl, rfl, -⟩ | ⟨haddress, rfl⟩
      · exact ⟨hpowered, rfl, rfl⟩
      · refine ⟨hpowered, rfl, ?_⟩
        simp [Deed.readsFlags, haddress]

/-! ## The past of a chip -/

/-- A chip comes, by calls that ask for these deeds, to another. The latest deed stands first; calls
that are refused leave nothing behind. -/
inductive Serves (c : Chip) : List Deed → Chip → Prop where
  | start : c.Serves [] c
  | call {past : List Deed} {d e : Chip} {call : Call} {deed : Deed} {answer : Callback}
      (hserves : c.Serves past d) (hdeed : call.deed? = some deed)
      (hcall : d.call call = some (e, answer)) : c.Serves (deed :: past) e

theorem does_of_deed (hdeed : call.deed? = some deed) (hcall : c.call call = some (d, answer)) :
    c.Does deed d answer := by
  obtain ⟨asked, hasked, hdoes⟩ := does_of_call hcall
  cases hdeed.symm.trans hasked
  exact hdoes

namespace Serves

variable {past deeds : List Deed} {settings : ChipSettings}

theorem stations (h : c.Serves deeds d) :
    d.stations = c.stations ∧ d.searchPolls = c.searchPolls := by
  induction h with
  | start => exact ⟨rfl, rfl⟩
  | call _ hdeed hcall ih =>
      obtain ⟨hstations, hpolls⟩ := (does_of_deed hdeed hcall).stations
      exact ⟨hstations.trans ih.1, hpolls.trans ih.2⟩

/-- The registers hold what the past has left in them. -/
theorem register (h : (ofSettings settings).Serves past c) (address : UInt8) :
    c.register address = Deed.content address past := by
  induction h with
  | start => exact register_of_cleared rfl address
  | @call past d e call deed answer _ hdeed hcall ih =>
      calc e.register address
          = deed.leaves address (d.register address) := (does_of_deed hdeed hcall).register address
        _ = Deed.content address (deed :: past) := by
          rw [ih, Deed.content, Deed.content, List.foldr_cons]

theorem frequencyWritten (h : (ofSettings settings).Serves past c) :
    c.frequencyWritten = Deed.startGiven past := by
  induction h with
  | start => rfl
  | call _ hdeed hcall ih => rw [(does_of_deed hdeed hcall).frequencyWritten, ih, Deed.startGiven]

theorem tuned (h : c.Serves deeds d) (hsteers : ∀ deed ∈ deeds, deed.steers = false) :
    d.tuned = c.tuned := by
  induction h with
  | start => rfl
  | call _ hdeed hcall ih =>
      obtain ⟨hlast, hbefore⟩ := List.forall_mem_cons.mp hsteers
      exact ((does_of_deed hdeed hcall).tuned hlast).trans (ih hbefore)

theorem waits (h : c.Serves deeds d) (hpowered : c.powered = true)
    (hdeeds : ∀ deed ∈ deeds, deed.steers = false ∧ deed ≠ .power false) :
    c.Waits d (deeds.countP Deed.readsFlags) := by
  induction h with
  | start => exact ⟨hpowered, rfl, rfl⟩
  | @call past d e call deed answer _ hdeed hcall ih =>
      obtain ⟨⟨hsteers, hon⟩, hbefore⟩ := List.forall_mem_cons.mp hdeeds
      obtain ⟨hpowered, hflags, hbusy⟩ := ih hbefore
      have hwaits := (does_of_deed hdeed hcall).waits hpowered hsteers hon
      refine ⟨hwaits.powered, hwaits.flags.trans hflags, ?_⟩
      rw [hwaits.busyReads, hbusy, List.countP_cons, Nat.sub_sub]

theorem append (h : c.Serves past d) (hd : d.Serves deeds e) : c.Serves (deeds ++ past) e := by
  induction hd with
  | start => exact h
  | call _ hdeed hcall ih => exact .call ih hdeed hcall

end Serves

/-- Whatever calls are served one after another, those that are taken are deeds. -/
theorem exists_serves (c : Chip) (sent : List (Call × Bool)) :
    ∃ deeds, c.Serves deeds (c.serve sent).1 := by
  induction sent generalizing c with
  | nil => exact ⟨[], .start⟩
  | cons x rest ih =>
      obtain ⟨call, accepted⟩ := x
      rw [serve]
      split
      next d answer hcall =>
        cases accepted with
        | false => cases hcall
        | true =>
            obtain ⟨deed, hdeed, -⟩ := does_of_call hcall
            obtain ⟨deeds, hserves⟩ := ih d
            exact ⟨deeds ++ [deed], .append (.call .start hdeed hcall) hserves⟩
      next => exact ih c

end Chip

end FmTuner
