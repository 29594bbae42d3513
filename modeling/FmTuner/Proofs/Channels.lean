import FmTuner.Proofs.Ranges

/-!
# Channels

A radio knows a frequency only after it was asked for and found valid, or after it was read back and
rounded to the band. Hence the known frequency is always a channel of the band, whatever bands are
started and whatever the chip says.
-/

namespace FmTuner

/-! ## The grid of a band -/

namespace Band

variable {b : Band} {f g : Freq}

theorem isValid_of_snap {raw : Freq} (h : b.snap raw = .ok (some f)) : b.isValid f = true :=
  (rounded_of_snap h).1

/-- Rounding leads to no channel below one that the frequency has reached. -/
theorem le_of_snap {raw : Freq} (h : b.snap raw = .ok (some f)) (hg : b.isValid g = true)
    (hle : g.khz ≤ raw.khz) : g.khz ≤ f.khz := by
  obtain ⟨hmin, -, hspacing, hgrid⟩ := isValid_iff.mp hg
  obtain ⟨i, hi⟩ := Nat.dvd_of_mod_eq_zero hgrid
  have hsteps : i ≤ (raw.khz + b.spacing / 2 - b.min.khz) / b.spacing := by
    rw [Nat.le_div_iff_mul_le hspacing, Nat.mul_comm]
    omega
  have hspan := Nat.mul_le_mul_right b.spacing hsteps
  rw [(rounded_of_snap h).2, rounded, ← Nat.sub_le_iff_le_add', hi, Nat.mul_comm]
  exact hspan

theorem rounded_of_isValid (h : b.isValid f = true) : b.rounded f = f := by
  obtain ⟨hmin, -, hspacing, hgrid⟩ := isValid_iff.mp h
  have hdvd := Nat.div_add_mod (f.khz - b.min.khz) b.spacing
  have hhalf : b.spacing / 2 < b.spacing := Nat.div_lt_self hspacing Nat.one_lt_two
  have hsum : f.khz + b.spacing / 2 - b.min.khz =
      b.spacing / 2 + b.spacing * ((f.khz - b.min.khz) / b.spacing) := by omega
  have hsteps : (f.khz + b.spacing / 2 - b.min.khz) / b.spacing =
      (f.khz - b.min.khz) / b.spacing := by
    rw [hsum, Nat.add_mul_div_left _ _ hspacing, Nat.div_eq_of_lt hhalf, Nat.zero_add]
  have hkhz : b.min.khz + (f.khz - b.min.khz) / b.spacing * b.spacing = f.khz := by
    rw [Nat.mul_comm]
    omega
  rw [rounded, hsteps, hkhz]

/-- A channel is the channel nearest to it. -/
theorem snap_of_isValid_of_lt (hshift : f.khz + b.spacing / 2 < Word.limit)
    (h : b.isValid f = true) : b.snap f = .ok (some f) := by
  obtain ⟨hmin, -, hspacing, -⟩ := isValid_iff.mp h
  have hfits : b.min.khz ≤ f.khz + b.spacing / 2 ∧ b.isValid f = true :=
    ⟨Nat.le_add_right_of_le hmin, h⟩
  rw [snap_eq _ hspacing hshift, rounded_of_isValid h, if_pos hfits]

theorem snap_of_isValid (hb : b.InRange) (h : b.isValid f = true) : b.snap f = .ok (some f) := by
  obtain ⟨-, hmax, -⟩ := isValid_iff.mp h
  obtain ⟨-, hlimit⟩ := hb
  exact snap_of_isValid_of_lt (by omega) h

theorem nextChannel_of_isValid (hb : b.InRange) (h : b.isValid f = true) :
    b.nextChannel f =
      .ok (if f.khz + b.spacing ≤ b.max.khz then some ⟨f.khz + b.spacing⟩ else none) := by
  have hsum : f.khz + b.spacing < Word.limit := by
    have hmax := (isValid_iff.mp h).2.1
    have hlimit := hb.2
    omega
  simp only [nextChannel, Word.add_eq_ok hsum, bind, Except.bind]

theorem isValid_next (h : b.isValid f = true) (hnext : f.khz + b.spacing ≤ b.max.khz) :
    b.isValid ⟨f.khz + b.spacing⟩ = true := by
  obtain ⟨hmin, -, hspacing, hgrid⟩ := isValid_iff.mp h
  refine isValid_iff.mpr ⟨?_, hnext, hspacing, ?_⟩
  · exact hmin.trans (Nat.le_add_right _ _)
  · change (f.khz + b.spacing - b.min.khz) % b.spacing = 0
    rw [Nat.sub_add_comm hmin, Nat.add_mod_right, hgrid]

/-- Between two neighbouring channels there is none. -/
theorem spacing_le_of_lt (hf : b.isValid f = true) (hg : b.isValid g = true)
    (h : f.khz < g.khz) : f.khz + b.spacing ≤ g.khz := by
  obtain ⟨hfmin, -, hspacing, hfgrid⟩ := isValid_iff.mp hf
  obtain ⟨-, -, -, hggrid⟩ := isValid_iff.mp hg
  obtain ⟨i, hi⟩ := Nat.dvd_of_mod_eq_zero hfgrid
  obtain ⟨j, hj⟩ := Nat.dvd_of_mod_eq_zero hggrid
  have hlt : b.spacing * i < b.spacing * j := by omega
  have hsucc : b.spacing * (i + 1) ≤ b.spacing * j :=
    Nat.mul_le_mul_left _ (Nat.lt_of_mul_lt_mul_left hlt)
  rw [Nat.mul_add, Nat.mul_one] at hsucc
  omega

end Band

/-! ## The known frequency -/

/-- A frequency that was read is a channel. -/
def Command.OnGrid (b : Band) (command : Command) : Prop :=
  ∀ f, command.reading = some (.frequency f) → b.isValid f = true

def Hook.OnGrid (b : Band) : Hook → Prop
  | .frequencySet f => b.isValid f = true
  | _ => True

structure Action.OnGrid (b : Band) (action : Action) : Prop where
  commands : ∀ command ∈ action.commands, command.OnGrid b
  hook : action.hook.OnGrid b

def Attributes.OnGrid (a : Attributes) : Prop :=
  ∀ f, a.frequency = some f → a.band.isValid f = true

structure Controller.OnGrid (c : Controller) : Prop where
  attributes : c.attributes.OnGrid
  action : ∀ p, c.pending = some p → p.action.OnGrid c.attributes.band

theorem ReadKind.onGrid_of_decode {b : Band} {kind : ReadKind} {data : List UInt8}
    {verdict : Verdict} {f : Freq}
    (h : kind.decode data b = .ok (verdict, some (.frequency f))) : b.isValid f = true := by
  cases decodes_of_decode h with
  | tuned hsnap => exact Band.isValid_of_snap hsnap

theorem Command.OnGrid.complete {b : Band} {command completed : Command} {callback : Callback}
    {verdict : Verdict} (h : command.OnGrid b)
    (hcomplete : command.complete callback b = .ok (completed, verdict)) : completed.OnGrid b := by
  cases completes_of_complete hcomplete with
  | refused | confirmed => exact h
  | decoded hanswers hdecode =>
      rintro f rfl
      exact ReadKind.onGrid_of_decode hdecode

theorem Readings.onGrid {b : Band} {commands : List Command}
    (h : ∀ command ∈ commands, command.OnGrid b) {f : Freq}
    (hf : (ofCommands commands).frequency = some f) : b.isValid f = true := by
  obtain ⟨value, hvalue, hfound⟩ := List.exists_of_findSome?_eq_some hf
  obtain ⟨command, hcommand, hreading⟩ := List.mem_filterMap.mp hvalue
  cases value with
  | frequency g =>
      cases hfound
      exact h command hcommand f hreading
  | _ => simp at hfound

theorem Readings.onGrid_of_poll {a b : Attributes} {r : Readings} {mode : ScanMode}
    {capacity : Nat} {next : Operation} (ha : a.OnGrid)
    (hr : ∀ f, r.frequency = some f → a.band.isValid f = true)
    (h : r.poll mode capacity a = .ok (b, next)) : b.OnGrid := by
  have htune : (r.tune a).OnGrid := by
    intro f hf
    cases hread : r.frequency with
    | none => exact ha f (by simpa [tune, hread] using hf)
    | some g =>
        have hg : g = f := by simpa [tune, hread] using hf
        exact hr f (hg ▸ hread)
  rw [poll] at h
  split at h
  next =>
    simp only [bind, Except.bind] at h
    split at h
    · cases h
    · cases h
      exact htune
  next =>
    cases h
    exact htune

theorem Hook.onGrid_of_apply {a b : Attributes} {hook : Hook} {status : Status}
    {commands : List Command} {followups : List Operation} (ha : a.OnGrid)
    (hhook : hook.OnGrid a.band) (hcommands : ∀ command ∈ commands, command.OnGrid a.band)
    (h : hook.apply status commands a = .ok (b, followups)) : b.OnGrid := by
  cases hook with
  | started band =>
      cases status with
      | done =>
          cases h
          simp [Attributes.OnGrid, Attributes.restarted]
      | _ =>
          cases h
          exact ha
  | frequencySet f =>
      cases status with
      | done =>
          cases h
          intro g hg
          cases hg
          exact hhook
      | _ =>
          cases h
          exact ha
  | scanPolled mode capacity =>
      cases status with
      | done =>
          simp only [apply, bind, Except.bind] at h
          split at h
          next => simp at h
          next hpoll =>
            cases h
            exact Readings.onGrid_of_poll ha (fun f hf ↦ Readings.onGrid hcommands hf) hpoll
      | _ =>
          cases h
          exact ha
  | _ => cases status <;> cases h <;> exact ha

theorem Plan.Built.onGrid {timing : Timing} {a : Attributes} {scanMode : Option ScanMode}
    {operation : Operation} {plan : Plan} (h : Built timing a scanMode operation plan) :
    plan.action.OnGrid a.band := by
  have htune : ∀ f, ∀ command ∈ tuneCommands f, Command.OnGrid a.band command := by
    simp [tuneCommands, Command.OnGrid, Command.writeFrequency, Command.writeByte, Command.reading]
  cases h with
  | setFrequency hvalid => exact ⟨htune _, hvalid⟩
  | scanDone =>
      refine ⟨?_, trivial⟩
      cases a.frequency with
      | none => exact List.forall_mem_nil _
      | some f => exact htune f
  | _ =>
      refine ⟨?_, trivial⟩
      simp [ofCommands, startCommands, searchCommands, Command.OnGrid, Command.writeFrequency,
        Command.writeByte, Command.pollStatus, Command.readFrequency, Command.readSignal,
        Command.reading]

/-- The progress of an action that keeps to the grid. -/
structure Progress.OnGrid (p : Progress) : Prop where
  attributes : p.attributes.OnGrid
  action : p.action.status = .running → p.action.OnGrid p.attributes.band

namespace Action

variable {accepts : Call → Bool} {action : Action} {a : Attributes} {p : Progress}

/-- A completed command takes the place of one that waited. -/
theorem OnGrid.set {b : Band} (h : action.OnGrid b) {command completed : Command}
    {callback : Callback} {verdict : Verdict}
    (hcommand : action.commands[action.index]? = some command)
    (hcomplete : command.complete callback b = .ok (completed, verdict)) :
    ∀ c ∈ action.commands.set action.index completed, c.OnGrid b := by
  intro c hc
  rcases List.mem_or_eq_of_mem_set hc with hc | rfl
  · exact h.commands c hc
  · exact (h.commands _ (List.mem_of_getElem? hcommand)).complete hcomplete

theorem Begins.onGrid (h : action.Begins accepts a p) (ha : a.OnGrid)
    (haction : action.OnGrid a.band) : p.OnGrid := by
  cases h with
  | empty hcommands hhook =>
      exact ⟨Hook.onGrid_of_apply ha haction.hook (List.forall_mem_nil _) hhook, by simp⟩
  | refused => exact ⟨ha, by simp⟩
  | issued => exact ⟨ha, fun _ ↦ ⟨haction.commands, haction.hook⟩⟩

theorem Advances.onGrid {callback : Callback} (h : action.Advances accepts callback a p)
    (ha : a.OnGrid) (haction : action.OnGrid a.band) : p.OnGrid := by
  cases h with
  | @stopped _ _ verdict _ _ hcommand hcomplete hverdict hhook =>
      refine ⟨Hook.onGrid_of_apply ha haction.hook (haction.set hcommand hcomplete) hhook, fun hs ↦ ?_⟩
      cases verdict <;> contradiction
  | finished hcommand hcomplete hlast hhook =>
      exact ⟨Hook.onGrid_of_apply ha haction.hook (haction.set hcommand hcomplete) hhook, by simp⟩
  | refused => exact ⟨ha, by simp⟩
  | issued hcommand hcomplete => exact ⟨ha, fun _ ↦ ⟨haction.set hcommand hcomplete, haction.hook⟩⟩

end Action

namespace Turn

variable {accepts : Call → Bool} {e : Option Event} {t u : Turn}

theorem hold_onGrid {p : Pending} {progress : Progress} (h : progress.OnGrid)
    (hstatus : progress.action.status = .running) : (t.hold p progress).radio.OnGrid := by
  refine ⟨by simpa using h.attributes, fun q hq ↦ ?_⟩
  simp only [hold_radio, Option.some.injEq] at hq
  subst hq
  simpa using h.action hstatus

theorem settle_onGrid (p : Pending) {progress : Progress} (h : progress.OnGrid)
    (armed timedOut : Bool) : (t.settle p progress armed timedOut).radio.OnGrid := by
  refine ⟨by simpa [Controller.resolved] using h.attributes, ?_⟩
  simp [Controller.resolved]

theorem Taken.attributes {r : Request} (h : Taken e t r u) :
    u.radio.attributes = t.radio.attributes := by
  cases h <;> rfl

theorem Move.onGrid (hmove : Move accepts e t u) (h : t.radio.OnGrid) : u.radio.OnGrid := by
  obtain ⟨ha, haction⟩ := h
  cases hmove with
  | ready => exact ⟨by simpa using ha, by simpa using haction⟩
  | arrive => exact ⟨ha, haction⟩
  | decline htaken =>
      refine ⟨?_, by simp [htaken.pending]⟩
      rw [report_radio, htaken.attributes]
      exact ha
  | begin htaken hroute hplan hbegins hstatus =>
      rw [← htaken.attributes] at ha
      exact hold_onGrid (hbegins.onGrid ha (Plan.built_of_build hplan).onGrid) hstatus
  | flash htaken hroute hplan hbegins =>
      rw [← htaken.attributes] at ha
      exact settle_onGrid _ (hbegins.onGrid ha (Plan.built_of_build hplan).onGrid) _ _
  | advance hpending hadvances hstatus =>
      exact hold_onGrid (hadvances.onGrid ha (haction _ hpending)) hstatus
  | finish hpending hadvances =>
      exact settle_onGrid _ (hadvances.onGrid ha (haction _ hpending)) _ _
  | expire => exact settle_onGrid _ ⟨ha, by simp⟩ _ _

end Turn

end FmTuner
