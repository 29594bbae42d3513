import FmTuner.Proofs.Ranges
import FmTuner.Proofs.Reports
import Mathlib.Data.List.Induction

/-!
# Runs without a fault

As long as the bands that are started are in range, every run comes to its end, whatever events it
brings and whatever the chip says. The sums, products and positions that a step computes refuse what
does not fit, so a run that ends has met none of these. In two places a step reckons without such a
refusal, because comparisons made before rule it out: the offset of a frequency in its band, and the
bytes of an answer. `Band.checkValid` and `Command.completeChecked` do the same with it.
-/

namespace FmTuner

/-- The entries from an index on, which has to lie within the list or at its end. -/
def entriesFrom {α : Type} (xs : List α) (index : Nat) : Except Fault (List α) :=
  if index ≤ xs.length then .ok (xs.drop index) else .error (.indexOutOfRange xs.length index)

theorem entriesFrom_eq_ok {α : Type} {xs : List α} {index : Nat} (h : index ≤ xs.length) :
    entriesFrom xs index = .ok (xs.drop index) :=
  if_pos h

/-- Whether a frequency is a channel, comparison by comparison. The offset is taken only of a
frequency that has reached the lower limit, and divided only by a spacing that is not zero. -/
def Band.checkValid (b : Band) (f : Freq) : Except Fault Bool :=
  if f.khz < b.min.khz then .ok false
  else if b.max.khz < f.khz then .ok false
  else if b.spacing = 0 then .ok false
  else do
    let offset ← Word.sub f.khz b.min.khz
    .ok (offset % b.spacing == 0)

theorem Band.checkValid_eq (b : Band) (f : Freq) : b.checkValid f = .ok (b.isValid f) := by
  rw [checkValid]
  split
  next hmin => simp [isValid, Nat.not_le_of_lt hmin]
  next hmin =>
    split
    next hmax => simp [isValid, Nat.not_le_of_lt hmax]
    next hmax =>
      split
      next hspacing => simp [isValid, hspacing]
      next hspacing =>
        have hle : b.min.khz ≤ f.khz := Nat.le_of_not_lt hmin
        rw [Word.sub_eq_ok hle]
        simp [isValid, hle, Nat.le_of_not_lt hmax, Nat.pos_of_ne_zero hspacing, bind, Except.bind]

namespace Command

/-- Whether a callback answers a read, byte by byte. The bytes are looked at only after their number
was found right. -/
def checkAnswer (register length : UInt8) (opcode : UInt16) (payload : List UInt8) :
    Except Fault Bool :=
  if opcode ≠ Register.confirmOpcode then .ok false
  else if payload.length ≠ 3 + length.toNat then .ok false
  else do
    let status ← entryAt payload 0
    if status ≠ 0 then .ok false
    else do
      let echoed ← entryAt payload 1
      if echoed ≠ register then .ok false
      else do
        let access ← entryAt payload 2
        .ok (access == Register.readAccess)

/-- Completes a command with a callback, and takes the data of an answer from where they begin. -/
def completeChecked (c : Command) (callback : Callback) (band : Band) :
    Except Fault (Command × Verdict) :=
  match c, callback with
  | .read register length kind reading, .vendor opcode payload => do
      if ← checkAnswer register length opcode payload then
        let data ← entriesFrom payload 3
        let (verdict, reading) ← kind.decode data band
        .ok (.read register length kind reading, verdict)
      else .ok (.read register length kind reading, .error)
  | c, callback => c.complete callback band

variable {register length : UInt8} {opcode : UInt16} {payload : List UInt8}

theorem exists_of_three_le (h : 3 ≤ payload.length) :
    ∃ status echoed access data, payload = status :: echoed :: access :: data := by
  rcases payload with _ | ⟨status, _ | ⟨echoed, _ | ⟨access, data⟩⟩⟩
  case cons.cons.cons => exact ⟨status, echoed, access, data, rfl⟩
  all_goals simp at h

theorem checkAnswer_eq (register length : UInt8) (opcode : UInt16) (payload : List UInt8) :
    checkAnswer register length opcode payload =
      .ok (answersRead register length opcode payload) := by
  rw [checkAnswer]
  split
  next hopcode => simp [answersRead, hopcode]
  next hopcode =>
    split
    next hlength => simp [answersRead, hlength]
    next hlength =>
      rw [Decidable.not_not] at hopcode hlength
      have hthree : 3 ≤ payload.length := by omega
      obtain ⟨status, echoed, access, data, rfl⟩ := exists_of_three_le hthree
      have hsecond : entryAt (status :: echoed :: access :: data) 1 = .ok echoed := rfl
      have hthird : entryAt (status :: echoed :: access :: data) 2 = .ok access := rfl
      simp only [entryAt_zero, hsecond, hthird, bind, Except.bind, answersRead, hopcode, hlength]
      by_cases hstatus : status = 0
      · by_cases hechoed : echoed = register <;> simp [hstatus, hechoed]
      · simp [hstatus]

/-- What is checked byte by byte is what is compared at once. -/
theorem completeChecked_eq (c : Command) (callback : Callback) (band : Band) :
    c.completeChecked callback band = c.complete callback band := by
  unfold completeChecked
  split
  next register length kind reading opcode payload =>
    rw [checkAnswer_eq]
    cases hanswers : answersRead register length opcode payload with
    | false => simp [complete, hanswers, bind, Except.bind]
    | true =>
        have hlength : 3 ≤ payload.length := by
          simp only [answersRead, Bool.and_eq_true, beq_iff_eq] at hanswers
          omega
        simp [complete, hanswers, entriesFrom_eq_ok hlength, bind, Except.bind]
  next => rfl

end Command

namespace Controller

variable {script : List (Event × (Call → Bool))}

theorem exists_run (timing : Timing) (hscript : ∀ x ∈ script, x.1.InRange) :
    ∃ t, (initial timing).run script = .ok t ∧ t.radio.Steady := by
  induction script using List.reverseRecOn with
  | nil => exact ⟨_, rfl, initial_steady timing⟩
  | append_singleton before x ih =>
      rw [List.forall_mem_append, List.forall_mem_singleton] at hscript
      obtain ⟨hbefore, hx⟩ := hscript
      obtain ⟨t, ht, hsteady⟩ := ih hbefore
      obtain ⟨u, hu⟩ := step_ok x.2 (run_inRange hbefore ht) hsteady hx
      have hlater : u.radio.Steady := step_steady hsteady hu
      exact ⟨_, run_snoc ht hu, hlater⟩

/-- Whatever events come and whatever the chip says, a run comes to its end as long as the bands
that are started are in range. Where a step computes without refusing what does not fit, nothing
could have been refused. -/
theorem run_never_faults (timing : Timing) (hscript : ∀ x ∈ script, x.1.InRange) :
    (∃ t, (initial timing).run script = .ok t) ∧
    (∀ (b : Band) (f : Freq), b.checkValid f = .ok (b.isValid f)) ∧
    ∀ (command : Command) (callback : Callback) (b : Band),
      command.completeChecked callback b = command.complete callback b := by
  refine ⟨?_, Band.checkValid_eq, Command.completeChecked_eq⟩
  obtain ⟨t, ht, -⟩ := exists_run timing hscript
  exact ⟨t, ht⟩

/-- A start on a band without a grid and with its limits the wrong way round, near the end of the
range, then a full scan on it whose poll is answered with the highest frequency, and stray
callbacks. -/
def crookedBand : List (Event × (Call → Bool)) :=
  [.ready, .request ⟨none, .start ⟨⟨4294967295⟩, ⟨7⟩, 0, .japan⟩⟩, .callback (.power true),
    .callback (.vendor 0xfc15 [0, 0, 0]), .callback .delayElapsed,
    .callback (.vendor 0xfc15 [0, 1, 0]), .callback (.vendor 0xfc15 [0, 5, 0]),
    .request ⟨some 1, .setFrequency ⟨0⟩⟩,
    .request ⟨none, .fullScan⟩, .callback (.vendor 0xfc15 [0, 10, 0]),
    .callback (.vendor 0xfc15 [0, 7, 0]), .callback (.vendor 0xfc15 [0, 9, 0]), .pollDue 2,
    .callback (.vendor 0xfc15 [0, 18, 1, 1, 0]),
    .callback (.vendor 0xfc15 [0, 10, 1, 0xff, 0xff]), .callback (.vendor 0 []),
    .timeout 3].map fun event ↦ (event, fun _ ↦ true)

theorem crooked_band_ends :
    (∀ x ∈ crookedBand, x.1.InRange) ∧ ∃ t, (initial {}).run crookedBand = .ok t := by
  have hscript : ∀ x ∈ crookedBand, x.1.InRange := by
    simp [crookedBand, Event.InRange, Operation.InRange, Band.InRange, Word.limit, UInt32.size]
  exact ⟨hscript, (run_never_faults {} hscript).1⟩

end Controller

end FmTuner
