import FmTuner.Proofs.Moves
import Mathlib.Data.List.Basic

/-!
# Frequencies within range

As long as the limits of every band, with a spacing on top, fit into a word, no computation of the
controller overflows. What is in range stays in range, and what is in range never faults.
-/

namespace FmTuner

def Band.InRange (b : Band) : Prop :=
  b.min.khz + b.spacing < Word.limit ∧ b.max.khz + b.spacing < Word.limit

/-- The limits and the spacing of a band are words, as they are in every band that there is. -/
structure Band.FitsWords (b : Band) : Prop where
  min : b.min.khz < Word.limit
  max : b.max.khz < Word.limit
  spacing : b.spacing < Word.limit

instance (b : Band) : Decidable b.FitsWords :=
  decidable_of_iff (b.min.khz < Word.limit ∧ b.max.khz < Word.limit ∧ b.spacing < Word.limit)
    ⟨fun h ↦ ⟨h.1, h.2.1, h.2.2⟩, fun h ↦ ⟨h.min, h.max, h.spacing⟩⟩

theorem Band.InRange.fitsWords {b : Band} (h : b.InRange) : b.FitsWords :=
  ⟨Nat.lt_of_le_of_lt (Nat.le_add_right _ _) h.1, Nat.lt_of_le_of_lt (Nat.le_add_right _ _) h.2,
    Nat.lt_of_le_of_lt (Nat.le_add_left _ _) h.1⟩

/-- A start is in range when its band is. -/
def Operation.InRange : Operation → Prop
  | .start b => b.InRange
  | _ => True

def Attributes.InRange (a : Attributes) : Prop :=
  a.band.InRange ∧ ∀ f, a.frequency = some f → f.khz ≤ a.band.max.khz

/-- A read asks for as many bytes as it decodes. -/
def Command.ReadsWhole : Command → Prop
  | .read _ length kind _ => length.toNat = kind.length
  | _ => True

instance : (command : Command) → Decidable command.ReadsWhole
  | .read _ length kind _ => inferInstanceAs (Decidable (length.toNat = kind.length))
  | .power _ | .delay _ | .write .. => inferInstanceAs (Decidable True)

/-- A read asks for as many bytes as it decodes, and has decoded no frequency above the band. -/
def Command.InRange (b : Band) : Command → Prop
  | .read _ length kind reading =>
      length.toNat = kind.length ∧ ∀ f, reading = some (.frequency f) → f.khz ≤ b.max.khz
  | _ => True

def Hook.InRange (b : Band) : Hook → Prop
  | .started b => b.InRange
  | .frequencySet f => f.khz ≤ b.max.khz
  | _ => True

structure Action.InRange (b : Band) (action : Action) : Prop where
  commands : ∀ command ∈ action.commands, command.InRange b
  hook : action.hook.InRange b

structure Controller.InRange (c : Controller) : Prop where
  attributes : c.attributes.InRange
  queue : ∀ q ∈ c.queue, q.request.operation.InRange
  action : ∀ p, c.pending = some p → p.action.InRange c.attributes.band
  index : ∀ p, c.pending = some p → p.action.index < p.action.commands.length

theorem Operation.inRange_of_not_isStart {operation : Operation} (h : operation.isStart = false) :
    operation.InRange := by
  cases operation <;> trivial

/-! ## Bands -/

namespace Band

variable {b : Band}

/-- The point of the grid to which a frequency is rounded, counted up from the lower limit. -/
def rounded (b : Band) (raw : Freq) : Freq :=
  ⟨b.min.khz + (raw.khz + b.spacing / 2 - b.min.khz) / b.spacing * b.spacing⟩

/-- Rounding needs room for half a spacing, and for nothing else. -/
theorem snap_eq (raw : Freq) (hspacing : 0 < b.spacing)
    (hshift : raw.khz + b.spacing / 2 < Word.limit) :
    b.snap raw =
      .ok (if b.min.khz ≤ raw.khz + b.spacing / 2 ∧ b.isValid (b.rounded raw) = true then
        some (b.rounded raw) else none) := by
  have hne : b.spacing ≠ 0 := Nat.ne_of_gt hspacing
  by_cases hbelow : raw.khz + b.spacing / 2 < b.min.khz
  · rw [if_neg fun h ↦ Nat.not_le_of_lt hbelow h.1]
    simp only [snap, hne, if_false, Word.add_eq_ok hshift, hbelow, if_true, bind, Except.bind]
  · have hle : b.min.khz ≤ raw.khz + b.spacing / 2 := Nat.le_of_not_lt hbelow
    have hfloor := Nat.div_mul_le_self (raw.khz + b.spacing / 2 - b.min.khz) b.spacing
    have hspan : (raw.khz + b.spacing / 2 - b.min.khz) / b.spacing * b.spacing < Word.limit := by
      omega
    have hsum : b.min.khz + (raw.khz + b.spacing / 2 - b.min.khz) / b.spacing * b.spacing <
        Word.limit := by
      omega
    simp only [snap, hne, if_false, Word.add_eq_ok hshift, hbelow, bind, Except.bind,
      Word.sub_eq_ok hle, Word.mul_eq_ok hspan, Word.add_eq_ok hsum, hle, true_and, rounded]

theorem lt_limit_of_snap {raw f : Freq} (h : b.snap raw = .ok (some f)) :
    0 < b.spacing ∧ raw.khz + b.spacing / 2 < Word.limit := by
  by_cases hspacing : b.spacing = 0
  · simp [snap, hspacing] at h
  · refine ⟨Nat.pos_of_ne_zero hspacing, ?_⟩
    by_contra hshift
    simp [snap, hspacing, Word.add, hshift, bind, Except.bind] at h

theorem rounded_of_snap {raw f : Freq} (h : b.snap raw = .ok (some f)) :
    b.isValid f = true ∧ f = b.rounded raw := by
  obtain ⟨hspacing, hshift⟩ := lt_limit_of_snap h
  rw [snap_eq raw hspacing hshift] at h
  split at h
  next hfits =>
    cases h
    exact ⟨hfits.2, rfl⟩
  next => cases h

/-- A word of the frequency register rounds to a channel, or to none. -/
theorem snap_ok (hb : b.FitsWords) (raw : UInt16) :
    ∃ found, b.snap (Freq.ofRegister raw) = .ok found ∧
      ∀ f, found = some f → b.isValid f = true := by
  by_cases hspacing : b.spacing = 0
  · exact ⟨none, by simp [snap, hspacing], by simp⟩
  · have hraw : (Freq.ofRegister raw).khz < 65536 + 64000 := by
      have hlt : raw.toNat < 65536 := raw.toNat_lt
      simp only [Freq.ofRegister, Freq.registerBase]
      omega
    have hlimit : Word.limit = 4294967296 := rfl
    have hwords := hb.spacing
    have hsnap := snap_eq (Freq.ofRegister raw) (Nat.pos_of_ne_zero hspacing) (by omega)
    refine ⟨_, hsnap, fun f hf ↦ ?_⟩
    rw [hf] at hsnap
    exact (rounded_of_snap hsnap).1

theorem le_max_of_isValid {f : Freq} (h : b.isValid f = true) : f.khz ≤ b.max.khz :=
  (isValid_iff.mp h).2.1

theorem nextChannel_ok (hb : b.InRange) {f : Freq} (hf : f.khz ≤ b.max.khz ∨ f = b.min) :
    ∃ next, b.nextChannel f = .ok next := by
  have hsum : f.khz + b.spacing < Word.limit := by
    obtain ⟨hmin, hmax⟩ := hb
    rcases hf with hf | rfl <;> omega
  simp only [nextChannel, Word.add_eq_ok hsum, bind, Except.bind]
  exact ⟨_, rfl⟩

end Band

/-! ## Commands -/

theorem entryAt_zero {α : Type} (x : α) (rest : List α) : entryAt (x :: rest) 0 = .ok x := rfl

theorem entryAt_one {α : Type} (x y : α) (rest : List α) : entryAt (x :: y :: rest) 1 = .ok y := rfl

/-- Bytes of the right number decode without a fault. -/
theorem ReadKind.decode_ok {b : Band} (hb : b.FitsWords) (kind : ReadKind) {data : List UInt8}
    (hdata : data.length = kind.length) :
    ∃ verdict reading, kind.decode data b = .ok (verdict, reading) ∧
      ∀ f, reading = some (.frequency f) → f.khz ≤ b.max.khz := by
  cases kind with
  | frequency =>
      obtain ⟨low, high, rfl⟩ := List.length_eq_two.1 hdata
      obtain ⟨found, hfound, hvalid⟩ := Band.snap_ok hb (Bytes.toWord low high)
      cases found with
      | none =>
          exact ⟨.fail, none, by simp [decode, entryAt_zero, entryAt_one, hfound, bind, Except.bind],
            by simp⟩
      | some f =>
          refine ⟨.success, some (.frequency f),
            by simp [decode, entryAt_zero, entryAt_one, hfound, bind, Except.bind], ?_⟩
          rintro g hg
          cases hg
          exact Band.le_max_of_isValid (hvalid f rfl)
  | signal =>
      obtain ⟨level, rfl⟩ := List.length_eq_one_iff.mp hdata
      exact ⟨.success, some (.signal level), by simp [decode, entryAt_zero, bind, Except.bind],
        by simp⟩
  | scanStatus =>
      obtain ⟨low, high, rfl⟩ := List.length_eq_two.1 hdata
      simp only [decode, entryAt_zero, entryAt_one, bind, Except.bind]
      split
      · exact ⟨_, _, rfl, by simp⟩
      · split
        · exact ⟨_, _, rfl, by simp⟩
        · exact ⟨_, _, rfl, by simp⟩

/-- A command whose reads are whole is completed by whatever callback comes, and reads no frequency
above the band. -/
theorem Command.exists_complete {b : Band} (hb : b.FitsWords) {command : Command}
    (h : command.ReadsWhole) (callback : Callback) :
    ∃ completed verdict, command.complete callback b = .ok (completed, verdict) ∧
      completed.ReadsWhole ∧ ∀ f, completed.reading = some (.frequency f) →
        command.reading = some (.frequency f) ∨ f.khz ≤ b.max.khz := by
  cases command with
  | read register length kind reading =>
      cases callback with
      | vendor opcode payload =>
          by_cases hanswers : answersRead register length opcode payload = true
          · have hdata : (payload.drop 3).length = kind.length := by
              simp only [answersRead, Bool.and_eq_true, beq_iff_eq] at hanswers
              have hlength : length.toNat = kind.length := h
              rw [List.length_drop]
              omega
            obtain ⟨verdict, found, hdecode, hfound⟩ := ReadKind.decode_ok hb kind hdata
            exact ⟨.read register length kind found, verdict,
              by rw [complete_answered hanswers, hdecode, Except.map], h,
              fun f hf ↦ .inr (hfound f hf)⟩
          · exact ⟨_, .error, by simp [complete, hanswers], h, fun _ ↦ .inl⟩
      | _ => exact ⟨_, .error, rfl, h, fun _ ↦ .inl⟩
  | power on =>
      cases callback with
      | powerState payload =>
          rcases payload with _ | ⟨state, _ | _⟩ <;>
            exact ⟨.power on, _, rfl, trivial, fun _ ↦ .inl⟩
      | _ => exact ⟨.power on, _, rfl, trivial, fun _ ↦ .inl⟩
  | delay ms => cases callback <;> exact ⟨.delay ms, _, rfl, trivial, fun _ ↦ .inl⟩
  | write register value =>
      cases callback <;> exact ⟨.write register value, _, rfl, trivial, fun _ ↦ .inl⟩

theorem Command.complete_ok {b : Band} (hb : b.InRange) {command : Command}
    (h : command.InRange b) (callback : Callback) :
    ∃ completed verdict, command.complete callback b = .ok (completed, verdict) ∧
      completed.InRange b := by
  have hwhole : command.ReadsWhole := by
    cases command with
    | read => exact h.1
    | _ => trivial
  obtain ⟨completed, verdict, hcomplete, hcompleted, hreading⟩ :=
    exists_complete hb.fitsWords hwhole callback
  refine ⟨completed, verdict, hcomplete, ?_⟩
  cases completed with
  | read =>
      refine ⟨hcompleted, fun f hf ↦ (hreading f hf).elim (fun hold ↦ ?_) id⟩
      cases command with
      | read => exact h.2 f hold
      | _ => simp [reading] at hold
  | _ => trivial

/-! ## Hooks and plans -/

theorem Readings.frequency_le {b : Band} {commands : List Command}
    (h : ∀ command ∈ commands, command.InRange b) {f : Freq}
    (hf : (Readings.ofCommands commands).frequency = some f) : f.khz ≤ b.max.khz := by
  obtain ⟨value, hvalue, hfound⟩ := List.exists_of_findSome?_eq_some hf
  obtain ⟨command, hcommand, hreading⟩ := List.mem_filterMap.mp hvalue
  cases value with
  | frequency g =>
      cases hfound
      cases command with
      | read => exact (h _ hcommand).2 _ hreading
      | _ => simp [Command.reading] at hreading
  | _ => simp at hfound

theorem Readings.tune_inRange {a : Attributes} (ha : a.InRange) {r : Readings}
    (hr : ∀ f, r.frequency = some f → f.khz ≤ a.band.max.khz) : (r.tune a).InRange := by
  refine ⟨ha.1, fun f hf ↦ ?_⟩
  cases hread : r.frequency with
  | none => exact ha.2 f (by simpa [tune, hread] using hf)
  | some g =>
      have hg : g = f := by simpa [tune, hread] using hf
      exact hr f (hg ▸ hread)

theorem Readings.poll_ok {a : Attributes} (ha : a.InRange) {r : Readings}
    (hr : ∀ f, r.frequency = some f → f.khz ≤ a.band.max.khz) (mode : ScanMode) (capacity : Nat) :
    ∃ b next, r.poll mode capacity a = .ok (b, next) ∧ b.InRange ∧ next.isStart = false := by
  cases hstation : r.station mode with
  | none =>
      simp only [poll, hstation]
      exact ⟨_, _, rfl, tune_inRange ha hr, rfl⟩
  | some s =>
      have hs : r.frequency = some s.freq := by
        cases mode with
        | full =>
            cases hfrequency : r.frequency with
            | none => simp [station, hfrequency] at hstation
            | some f =>
                cases hsignal : r.signal with
                | none => simp [station, hfrequency, hsignal] at hstation
                | some level =>
                    simp only [station, hfrequency, hsignal, bind, Option.bind,
                      Option.some.injEq] at hstation
                    simp [← hstation]
        | _ => simp [station] at hstation
      obtain ⟨above, habove⟩ := Band.nextChannel_ok ha.1 (.inl (hr _ hs))
      have htune := tune_inRange ha hr
      simp only [poll, hstation, habove, bind, Except.bind]
      refine ⟨_, _, rfl, ⟨htune.1, htune.2⟩, ?_⟩
      split <;> rfl

/-- What a hook does to attributes in range is in range, and it asks for no start. -/
theorem Hook.apply_ok {a : Attributes} (ha : a.InRange) {hook : Hook} (hhook : hook.InRange a.band)
    {commands : List Command} (hcommands : ∀ command ∈ commands, command.InRange a.band)
    (status : Status) :
    ∃ b followups, hook.apply status commands a = .ok (b, followups) ∧ b.InRange ∧
      ∀ operation ∈ followups, operation.isStart = false := by
  have hkept : ∃ b followups, (.ok (a, []) : Except Fault (Attributes × List Operation)) =
      .ok (b, followups) ∧ b.InRange ∧ ∀ operation ∈ followups, operation.isStart = false :=
    ⟨a, [], rfl, ha, by simp⟩
  cases status with
  | done =>
      cases hook with
      | none => exact hkept
      | started band => exact ⟨_, [], rfl, ⟨hhook, by simp [Attributes.restarted]⟩, by simp⟩
      | frequencySet f =>
          refine ⟨_, [], rfl, ⟨ha.1, fun g hg ↦ ?_⟩, by simp⟩
          cases hg
          exact hhook
      | scanPolled mode capacity =>
          obtain ⟨b, next, hpoll, hb, hnext⟩ := Readings.poll_ok ha
            (fun f hf ↦ Readings.frequency_le hcommands hf) mode capacity
          exact ⟨b, [next], by simp [apply, hpoll, bind, Except.bind], hb, by simpa using hnext⟩
      | scanStopped mode => exact ⟨a, _, rfl, ha, by simp [Operation.isStart]⟩
      | _ => exact ⟨_, [], rfl, ⟨ha.1, ha.2⟩, by simp⟩
  | fail =>
      cases hook with
      | scanPolled mode capacity => exact ⟨a, _, rfl, ha, by simp [Operation.isStart]⟩
      | _ => exact hkept
  | cancel => rw [Hook.apply_cancel]; exact hkept
  | error => rw [Hook.apply_error]; exact hkept
  | _ => cases hook <;> exact hkept

namespace Plan

variable {timing : Timing} {operation : Operation} {a : Attributes} {scanMode : Option ScanMode}

/-- What carries out an operation in range is in range. -/
theorem Built.inRange {plan : Plan} (h : Built timing a scanMode operation plan)
    (hoperation : operation.InRange) : plan.action.InRange a.band := by
  have hwrites : ∀ f, ∀ command ∈ tuneCommands f, Command.InRange a.band command := by
    simp [tuneCommands, Command.InRange, Command.writeByte, Command.writeFrequency]
  cases h with
  | start b =>
      exact ⟨by simp [ofCommands, startCommands, Command.InRange, Command.writeByte], hoperation⟩
  | setFrequency hvalid => exact ⟨hwrites _, Band.le_max_of_isValid hvalid⟩
  | pollScan =>
      exact ⟨by simp [ofCommands, Command.InRange, Command.pollStatus, Command.readFrequency,
        Command.readSignal, ReadKind.length], trivial⟩
  | scanDone =>
      refine ⟨?_, trivial⟩
      cases a.frequency with
      | none => simp [ofCommands]
      | some f => exact hwrites f
  | _ =>
      exact ⟨by simp [ofCommands, searchCommands, Command.InRange, Command.writeByte,
        Command.writeFrequency], trivial⟩

theorem build_ok (timing : Timing) (operation : Operation) (ha : a.InRange)
    (scanMode : Option ScanMode) : ∃ plan, build timing operation a scanMode = .ok plan := by
  cases operation
  case scanStep =>
    have hfrom : (a.frequency.getD a.band.min).khz ≤ a.band.max.khz ∨
        a.frequency.getD a.band.min = a.band.min := by
      cases hf : a.frequency with
      | none => exact .inr rfl
      | some f => exact .inl (ha.2 f hf)
    obtain ⟨next, hnext⟩ := Band.nextChannel_ok ha.1 hfrom
    cases next <;> exact ⟨_, by simp only [build, hnext, bind, Except.bind]; rfl⟩
  all_goals exact ⟨_, rfl⟩

end Plan

/-! ## Actions -/

/-- The progress of an action in range; as long as it runs, a command waits for its callback. -/
structure Progress.InRange (p : Progress) : Prop where
  attributes : p.attributes.InRange
  followups : ∀ operation ∈ p.followups, operation.isStart = false
  action : p.action.status = .running → p.action.InRange p.attributes.band
  index : p.action.status = .running → p.action.index < p.action.commands.length

theorem Progress.moveTo_ok {p : Progress} (ha : p.attributes.InRange)
    (haction : p.action.InRange p.attributes.band) (status : Status) :
    ∃ q, p.moveTo status = .ok q := by
  obtain ⟨b, followups, hhook, -⟩ := Hook.apply_ok ha haction.hook haction.commands status
  rw [moveTo]
  split
  · exact ⟨p, rfl⟩
  · split
    · simp only [hhook]
      exact ⟨_, rfl⟩
    · exact ⟨_, rfl⟩

namespace Action

variable {accepts : Call → Bool} {action : Action} {a : Attributes} {p : Progress}

theorem execute_ok (accepts : Call → Bool) (ha : a.InRange) (haction : action.InRange a.band) :
    ∃ p, action.execute accepts a = .ok p := by
  rw [execute]
  split
  · exact ⟨_, rfl⟩
  · split
    · exact Progress.moveTo_ok ha haction _
    next hcommands =>
      obtain ⟨first, rest, hcons⟩ := List.exists_cons_of_ne_nil hcommands
      have hentry : action.commands[0]? = some first := by simp [hcons]
      exact ⟨_, Progress.issue_eq accepts rfl hentry⟩

theorem Begins.inRange (h : action.Begins accepts a p) (ha : a.InRange)
    (haction : action.InRange a.band) : p.InRange := by
  cases h with
  | empty hcommands hhook =>
      obtain ⟨b, followups, hhook', hb, hfollowups⟩ :=
        Hook.apply_ok ha haction.hook (List.forall_mem_nil _) .done
      cases hhook.symm.trans hhook'
      exact ⟨hb, hfollowups, by simp, by simp⟩
  | refused => exact ⟨ha, by simp, by simp, by simp⟩
  | issued hcommands =>
      exact ⟨ha, by simp, fun _ ↦ ⟨haction.commands, haction.hook⟩, fun _ ↦ by simp [hcommands]⟩

theorem hear_ok (accepts : Call → Bool) (callback : Callback) (ha : a.InRange)
    (haction : action.InRange a.band)
    (hindex : action.index < action.commands.length) :
    ∃ p, action.hear accepts callback a = .ok p := by
  obtain ⟨completed, verdict, hcomplete, hcompleted⟩ := Command.complete_ok ha.1
    (haction.commands _ (List.getElem_mem hindex)) callback
  have hset : ∀ command ∈ action.commands.set action.index completed, command.InRange a.band :=
    fun command hcommand ↦ (List.mem_or_eq_of_mem_set hcommand).elim (haction.commands command)
      fun heq ↦ heq ▸ hcompleted
  have hmove : ∀ status, ∃ q, Progress.moveTo
      { action := { action with commands := action.commands.set action.index completed }
        attributes := a
        exchanges := [.answered action.index completed callback verdict] } status = .ok q :=
    Progress.moveTo_ok ha ⟨hset, haction.hook⟩
  rw [hear]
  split
  · exact ⟨_, rfl⟩
  next hstatus =>
    have hentry := entryAt_eq_ok hindex
    simp only [hentry, List.get_eq_getElem, hcomplete, bind, Except.bind]
    split
    · exact hmove _
    · split
      · exact hmove _
      next hlength =>
        have hnext : (action.commands.set action.index completed)[action.index + 1]? =
            some (action.commands.get ⟨action.index + 1, by omega⟩) := by
          rw [List.getElem?_set_ne (by omega)]
          simp [Nat.lt_of_not_le hlength]
        exact ⟨_, Progress.issue_eq accepts (by simpa using hstatus) hnext⟩

theorem Advances.inRange {callback : Callback} (h : action.Advances accepts callback a p)
    (ha : a.InRange) (haction : action.InRange a.band) : p.InRange := by
  have hset : ∀ {command completed : Command} {verdict : Verdict},
      action.commands[action.index]? = some command →
      command.complete callback a.band = .ok (completed, verdict) →
      ∀ c ∈ action.commands.set action.index completed, c.InRange a.band := by
    intro command completed verdict hcommand hcomplete c hc
    obtain ⟨completed', verdict', hcomplete', hcompleted⟩ := Command.complete_ok ha.1
      (haction.commands _ (List.mem_of_getElem? hcommand)) callback
    cases hcomplete.symm.trans hcomplete'
    exact (List.mem_or_eq_of_mem_set hc).elim (haction.commands c) fun heq ↦ heq ▸ hcompleted
  cases h with
  | @stopped _ _ verdict _ _ hcommand hcomplete hverdict hhook =>
      obtain ⟨b, followups, hhook', hb, hfollowups⟩ :=
        Hook.apply_ok ha haction.hook (hset hcommand hcomplete) _
      cases hhook.symm.trans hhook'
      have hstopped : verdict.status ≠ .running := by
        cases verdict <;> first | contradiction | simp [Verdict.status]
      exact ⟨hb, hfollowups, fun hs ↦ (hstopped hs).elim, fun hs ↦ (hstopped hs).elim⟩
  | finished hcommand hcomplete hlast hhook =>
      obtain ⟨b, followups, hhook', hb, hfollowups⟩ :=
        Hook.apply_ok ha haction.hook (hset hcommand hcomplete) _
      cases hhook.symm.trans hhook'
      exact ⟨hb, hfollowups, by simp, by simp⟩
  | refused => exact ⟨ha, by simp, by simp, by simp⟩
  | issued hcommand hcomplete hnext =>
      have hindex := (List.getElem?_eq_some_iff.mp hnext).1
      exact ⟨ha, by simp, fun _ ↦ ⟨hset hcommand hcomplete, haction.hook⟩,
        fun _ ↦ by simpa using hindex⟩

end Action

/-! ## Turns -/

theorem Journal.followups_inRange (first : Nat) {operations : List Operation}
    (h : ∀ operation ∈ operations, operation.isStart = false) :
    ∀ q ∈ followups first operations, q.request.operation.InRange := by
  induction operations generalizing first with
  | nil => simp
  | cons operation rest ih =>
      rw [followups_cons, List.forall_mem_cons]
      rw [List.forall_mem_cons] at h
      exact ⟨Operation.inRange_of_not_isStart h.1, ih (first + 1) h.2⟩

/-- An event that brings nothing out of range. -/
def Event.InRange : Event → Prop
  | .request r => r.operation.InRange
  | _ => True

namespace Turn

variable {accepts : Call → Bool} {e : Option Event} {t u : Turn}

theorem Taken.inRange {r : Request} (h : Taken e t r u) (ht : t.radio.InRange) :
    u.radio.InRange ∧ r.operation.InRange := by
  cases h with
  | queued hpending hqueue =>
      have hall := ht.queue
      rw [hqueue, List.forall_mem_append, List.forall_mem_cons] at hall
      refine ⟨⟨ht.attributes, ?_, ht.action, ht.index⟩, hall.2.1⟩
      simp only [take_radio, List.forall_mem_append]
      exact ⟨hall.1, hall.2.2⟩
  | poll => exact ⟨ht, trivial⟩

theorem hold_inRange (ht : t.radio.InRange) {p : Pending} {progress : Progress}
    (hprogress : progress.InRange) (hstatus : progress.action.status = .running) :
    (t.hold p progress).radio.InRange := by
  refine ⟨by simpa using hprogress.attributes, ?_, ?_, ?_⟩
  · simp only [hold_radio, List.forall_mem_append]
    exact ⟨ht.queue, Journal.followups_inRange _ hprogress.followups⟩
  · simpa using hprogress.action hstatus
  · simpa using hprogress.index hstatus

theorem settle_inRange (ht : t.radio.InRange) (p : Pending) {progress : Progress}
    (hprogress : progress.InRange) (armed timedOut : Bool) :
    (t.settle p progress armed timedOut).radio.InRange := by
  refine ⟨by simpa [Controller.resolved] using hprogress.attributes, ?_, ?_, ?_⟩
  · simp only [settle_radio, Controller.resolved, List.forall_mem_append]
    exact ⟨ht.queue, Journal.followups_inRange _ hprogress.followups⟩
  · simp [Controller.resolved]
  · simp [Controller.resolved]

/-- Moves keep what is in range in range. -/
theorem Move.inRange (h : Move accepts e t u) (ht : t.radio.InRange)
    (he : ∀ event, e = some event → event.InRange) : u.radio.InRange := by
  cases h with
  | ready => exact ⟨by simpa using ht.attributes, by simpa using ht.queue,
      by simpa using ht.action, by simpa using ht.index⟩
  | arrive r =>
      refine ⟨ht.attributes, ?_, ht.action, ht.index⟩
      simp only [enqueue_radio, List.forall_mem_append]
      exact ⟨ht.queue, List.forall_mem_singleton.mpr (he _ rfl)⟩
  | decline htaken => simpa using (htaken.inRange ht).1
  | begin htaken hroute hplan hbegins hstatus =>
      obtain ⟨hu, hr⟩ := htaken.inRange ht
      have hlaunch := hbegins.inRange hu.attributes ((Plan.built_of_build hplan).inRange hr)
      exact hold_inRange (t := launch _ _ _) ⟨hu.attributes, hu.queue, hu.action, hu.index⟩ hlaunch
        hstatus
  | flash htaken hroute hplan hbegins hstatus =>
      obtain ⟨hu, hr⟩ := htaken.inRange ht
      have hlaunch := hbegins.inRange hu.attributes ((Plan.built_of_build hplan).inRange hr)
      exact settle_inRange (t := launch _ _ _) ⟨hu.attributes, hu.queue, hu.action, hu.index⟩ _
        hlaunch false false
  | advance hpending hadvances hstatus =>
      exact hold_inRange ht (hadvances.inRange ht.attributes (ht.action _ hpending)) hstatus
  | finish hpending hadvances hstatus =>
      exact settle_inRange ht _ (hadvances.inRange ht.attributes (ht.action _ hpending)) true false
  | expire hpending =>
      exact settle_inRange ht _ ⟨ht.attributes, by simp, by simp, by simp⟩ true true

/-! ## Steps -/

theorem dispatch_ok (accepts : Call → Bool) (ht : t.radio.InRange) {r : Request}
    (hr : r.operation.InRange) :
    ∃ u, t.dispatch accepts r = .ok u := by
  rw [dispatch]
  split
  · exact ⟨_, rfl⟩
  · exact ⟨_, rfl⟩
  · exact ⟨_, rfl⟩
  · obtain ⟨plan, hplan⟩ :=
      Plan.build_ok t.radio.timing r.operation ht.attributes t.radio.scanMode
    cases plan with
    | none => exact ⟨_, by rw [hplan]⟩
    | some plan =>
        obtain ⟨progress, hprogress⟩ := Action.execute_ok accepts ht.attributes
          ((Plan.built_of_build hplan).inRange hr)
        simp only [hplan]
        rw [begin_eq, hprogress]
        simp only
        split <;> exact ⟨_, rfl⟩

theorem drainWith_ok (accepts : Call → Bool) (fuel : Nat) (ht : t.radio.InRange) :
    ∃ u, t.drainWith accepts fuel = .ok u := by
  induction fuel generalizing t with
  | zero => exact ⟨t, rfl⟩
  | succ fuel ih =>
      rw [drainWith]
      split
      · exact ⟨t, rfl⟩
      next hpending =>
        rcases dropWhile_defers t.radio with hdrop | ⟨q, rest, hdrop, hqueue, hq⟩
        · exact ⟨t, by rw [hdrop]⟩
        · have hnone : t.radio.pending = none := by simpa using hpending
          have htaken :
              Taken none t q.request (t.take q (t.radio.queue.takeWhile t.radio.defers) rest) :=
            .queued hnone hqueue (fun r hr ↦ List.mem_takeWhile_imp hr) hq
          obtain ⟨hu, hr⟩ := htaken.inRange ht
          obtain ⟨v, hv⟩ := dispatch_ok accepts hu hr
          have hmove := move_of_dispatch htaken (by simpa [Controller.defers] using hq) hv
          obtain ⟨w, hw⟩ := ih (hmove.inRange ht (by simp))
          refine ⟨w, ?_⟩
          simp only [hdrop, bind, Except.bind]
          simp only [take] at hv
          simp only [note, hv, hw]

theorem react_ok (accepts : Call → Bool) (event : Event) (ht : t.radio.InRange)
    (hsteady : t.radio.Steady) :
    ∃ u, t.react accepts event = .ok u := by
  cases event with
  | ready => exact ⟨_, rfl⟩
  | request r => exact ⟨_, rfl⟩
  | callback callback =>
      rw [react, hear]
      split
      · exact ⟨_, rfl⟩
      next p hpending =>
        obtain ⟨progress, hprogress⟩ := Action.hear_ok accepts callback ht.attributes
          (ht.action p hpending) (ht.index p hpending)
        rw [hprogress]
        simp only
        split <;> exact ⟨_, rfl⟩
  | timeout id =>
      rw [react, expire]
      split
      · exact ⟨_, rfl⟩
      next p hpending =>
        split
        · exact ⟨_, rfl⟩
        · rw [Action.abort_error (hsteady p hpending)]
          exact ⟨_, rfl⟩
  | pollDue generation =>
      rw [react, poll]
      split
      · exact ⟨_, rfl⟩
      · split
        · exact ⟨_, rfl⟩
        · exact dispatch_ok accepts ht trivial

end Turn

namespace Controller

variable {accepts : Call → Bool} {c : Controller}

theorem step_inRange (hc : c.InRange) (hsteady : c.Steady) {event : Event} (hevent : event.InRange)
    {t : Turn} (h : c.step accepts event = .ok t) : t.radio.InRange := by
  rcases step_moves hsteady h with ⟨-, -, rfl⟩ | ⟨v, hcause, hmoves, -⟩
  · exact hc
  · have hv : v.radio.InRange := by
      rcases hcause with ⟨-, rfl⟩ | hmove
      · exact hc
      · exact hmove.inRange hc fun _ heq ↦ Option.some.inj heq ▸ hevent
    exact Turn.keeps_of_moves (Q := fun t ↦ t.radio.InRange)
      (fun _ _ ht hmove ↦ hmove.inRange ht (by simp)) hmoves hv

/-- No event in range makes a controller in range fault, whatever the chip says. -/
theorem step_ok (accepts : Call → Bool) (hc : c.InRange) (hsteady : c.Steady) {event : Event}
    (hevent : event.InRange) :
    ∃ t, c.step accepts event = .ok t := by
  rw [step]
  split
  · exact ⟨_, rfl⟩
  next hready =>
    obtain ⟨u, hu⟩ := Turn.react_ok (t := { radio := c }) accepts event hc hsteady
    have hinvalid : event = .ready → c.state = .invalid := by simpa using hready
    have hrange : u.radio.InRange := by
      rcases Turn.move_of_react (t := { radio := c }) hsteady hinvalid hu with ⟨-, rfl⟩ | hmove
      · exact hc
      · exact hmove.inRange hc fun _ heq ↦ Option.some.inj heq ▸ hevent
    obtain ⟨v, hv⟩ := Turn.drainWith_ok accepts u.radio.queue.length hrange
    exact ⟨v, by simp only [hu, bind, Except.bind]; exact hv⟩

theorem initial_inRange (timing : Timing) : (initial timing).InRange := by
  refine ⟨⟨⟨?_, ?_⟩, ?_⟩, ?_, ?_, ?_⟩ <;> simp [initial, Band.europeUs, Word.limit, UInt32.size]

theorem run_inRange {timing : Timing} {script : List (Event × (Call → Bool))} {t : Turn}
    (hscript : ∀ x ∈ script, x.1.InRange) (h : (initial timing).run script = .ok t) :
    t.radio.InRange :=
  (run_induction (P := fun t ↦ t.radio.InRange) (initial_inRange timing)
    (fun _ _ _ _ hmem ht _ _ hmove ↦
      hmove.inRange ht fun _ heq ↦ Option.some.inj heq ▸ hscript _ hmem)
    (fun _ _ _ ht _ hmove ↦ hmove.inRange ht (by simp)) h).1

end Controller

end FmTuner
