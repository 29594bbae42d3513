import FmTuner.Proofs.Ascents
import FmTuner.Proofs.SingleScan
import FmTuner.Service.Errand

/-!
# What errands come to

The operations of an errand, one after another, on scenes: each is granted, whoever asks for it. In
the end the radio is on and has the settings that were asked for, or it has begun a scan which will
come to an end and keep them.
-/

namespace FmTuner

namespace Scene

variable {timing : Timing} {n : Nat} {s : Scene} {Q R : Scene → Prop}

/-- Whoever asks for an operation is told that it is done after some deliveries, and `Q` holds of
what is seen then. -/
def Grants (timing : Timing) (n : Nat) (operation : Operation) (s : Scene) (Q : Scene → Prop) :
    Prop :=
  s.flight = none ∧ operation ≠ .reset ∧ ∀ id, ∃ u v : Scene,
    s.Begins timing { id := some id, operation } u ∧
      Course timing (Carries s.state { id := some id, operation }) n u v ∧ v.flight = none ∧
        v.ledger.reports = s.ledger.reports ++ [(id, .done)] ∧ Q v

/-- Operations are granted one after another. -/
def GrantsAll (timing : Timing) (n : Nat) : List Operation → Scene → (Scene → Prop) → Prop
  | [], s, Q => Q s
  | operation :: rest, s, Q => s.Grants timing n operation fun v ↦ GrantsAll timing n rest v Q

theorem Grants.mono {operation : Operation} (h : s.Grants timing n operation Q)
    (hQ : ∀ v, Q v → R v) : s.Grants timing n operation R := by
  obtain ⟨hflight, hreset, hgrants⟩ := h
  refine ⟨hflight, hreset, fun id ↦ ?_⟩
  obtain ⟨u, v, hbegins, hcourse, hrests, hreports, hv⟩ := hgrants id
  exact ⟨u, v, hbegins, hcourse, hrests, hreports, hQ v hv⟩

theorem GrantsAll.append {first second : List Operation}
    (h : GrantsAll timing n first s fun v ↦ GrantsAll timing n second v Q) :
    GrantsAll timing n (first ++ second) s Q := by
  induction first generalizing s with
  | nil => exact h
  | cons operation rest ih => exact Grants.mono h fun v hv ↦ ih hv

theorem GrantsAll.mono {operations : List Operation} (h : GrantsAll timing n operations s Q)
    (hQ : ∀ v, Q v → R v) : GrantsAll timing n operations s R := by
  induction operations generalizing s with
  | nil => exact hQ s h
  | cons operation rest ih => exact Grants.mono h fun v hv ↦ ih hv

/-! ## Settings -/

/-- A radio that is on, without anything to do, on a chip whose searches take a number of polls. -/
structure Idles (s : Scene) (polls : Nat) (a : Attributes) : Prop where
  state : s.state = .started
  scanMode : s.scanMode = none
  flight : s.flight = none
  attributes : s.attributes = a
  powered : s.chip.powered = true
  searchPolls : s.chip.searchPolls = polls

variable {polls : Nat} {a : Attributes}

theorem grants_of_obeys {operation : Operation} {commands : List Command} {hook : Hook}
    (hplan : Plan.build timing operation s.attributes s.scanMode =
      .ok (some (.ofCommands operation commands hook)))
    (hflight : s.flight = none) (hreset : operation ≠ .reset)
    (hroute : route s.state operation = .accept .started) {d : Chip}
    (hobeys : s.chip.Obeys commands d) (hpowered : d.powered = true)
    (hpolls : d.searchPolls = polls) {b : Attributes}
    (hhook : hook.apply .done commands s.attributes = .ok (b, [])) (hlength : commands.length ≤ n) :
    s.Grants timing n operation fun v ↦ v.Idles polls b := by
  refine ⟨hflight, hreset, fun id ↦ ?_⟩
  obtain ⟨u, hbegins, hcourse⟩ :=
    carries_out (r := { id := some id, operation }) hroute hplan hobeys hhook
  refine ⟨u, _, hbegins, hcourse.le hlength, rfl, ?_, rfl, rfl, rfl, rfl, hpowered, hpolls⟩
  simp [settled, reported, Status.outcome]

theorem Idles.grants (h : s.Idles polls a) {operation : Operation} {commands : List Command}
    {hook : Hook}
    (hplan : Plan.build timing operation a none =
      .ok (some (.ofCommands operation commands hook)))
    (hreset : operation ≠ .reset) (hroute : route .started operation = .accept .started) {d : Chip}
    (hobeys : s.chip.Obeys commands d) (hpowered : d.powered = s.chip.powered)
    (hpolls : d.searchPolls = s.chip.searchPolls) {b : Attributes}
    (hhook : hook.apply .done commands a = .ok (b, [])) (hlength : commands.length ≤ n) :
    s.Grants timing n operation fun v ↦ v.Idles polls b := by
  rw [← h.attributes, ← h.scanMode] at hplan
  rw [← h.state] at hroute
  rw [← h.attributes] at hhook
  exact grants_of_obeys hplan h.flight hreset (hroute.trans (congrArg _ h.state)) hobeys
    (hpowered.trans h.powered) (hpolls.trans h.searchPolls) hhook hlength

theorem Idles.grantsAll_threshold (h : s.Idles polls a) (threshold : Option Nat) :
    GrantsAll timing n (threshold.toList.map .setThreshold) s fun v ↦
      v.Idles polls { a with threshold := threshold.getD a.threshold } := by
  cases threshold with
  | none => exact h
  | some value =>
      exact h.grants rfl (by simp) rfl (.nil _) rfl rfl rfl (Nat.zero_le n)

theorem Idles.grantsAll_mono (h : s.Idles polls a) (hn : 1 ≤ n) (mono : Bool) :
    GrantsAll timing n (if mono then [.setForceMono true] else []) s fun v ↦
      v.Idles polls { a with forceMono := mono || a.forceMono } := by
  cases mono with
  | false => exact h
  | true =>
      have hwrite := s.chip.write_plain (show Register.fmControl.toNat < 32 by decide)
        (Register.fmControlValue a.band true).toUInt16 (by decide) (by decide)
      exact h.grants rfl (by simp) rfl (.writeByte h.powered hwrite (.nil _)) rfl rfl rfl
        hn

theorem Idles.grantsAll_tune (h : s.Idles polls a) (hn : 2 ≤ n) (hband : a.band ∈ Band.presets)
    {tune : Option Nat} (hvalid : ∀ khz, tune = some khz → a.band.isValid ⟨khz⟩ = true) :
    GrantsAll timing n (tune.toList.map fun khz ↦ .setFrequency ⟨khz⟩) s fun v ↦
      v.Idles polls { a with frequency := (tune.map Freq.mk).or a.frequency } := by
  cases tune with
  | none => exact h
  | some khz =>
      have hchannel := hvalid khz rfl
      have hplan : Plan.build timing (.setFrequency ⟨khz⟩) a none =
          .ok (some (.ofCommands (.setFrequency ⟨khz⟩) (Plan.tuneCommands ⟨khz⟩)
            (.frequencySet ⟨khz⟩))) := by
        rw [Plan.build, if_pos hchannel]
      obtain ⟨d, hobeys, hsame, -, -⟩ :=
        Chip.obeys_tuneCommands h.powered (Band.inRegister_of_preset hband hchannel)
      exact h.grants hplan (by simp) rfl hobeys hsame.powered hsame.searchPolls rfl hn

end Scene

theorem Chip.obeys_startCommands (c : Chip) (timing : Timing) (band : Band) :
    ∃ d, c.Obeys (Plan.startCommands timing band) d ∧ d.powered = true ∧
      d.searchPolls = c.searchPolls := by
  have hissues : c.Issues (.power true) (c.power true) (.power true) := rfl
  refine ⟨?chip, ?obeys, ?powered, ?polls⟩
  case obeys =>
    refine .cons hissues (fun _ ↦ rfl) ?_
    refine .writeByte rfl (write_plain (by decide) _ (by decide) (by decide)) ?_
    -- The delay asks nothing of the chip.
    refine .cons ⟨rfl, rfl⟩ (fun _ ↦ rfl) ?_
    refine .writeByte rfl (write_plain (by decide) _ (by decide) (by decide)) ?_
    refine .writeByte rfl (write_plain (by decide) _ (by decide) (by decide)) ?_
    exact .nil _
  case powered => rfl
  case polls => rfl

namespace Scene

variable {timing : Timing} {n polls : Nat} {s : Scene} {a : Attributes}

theorem grants_start (hstate : s.state = .idle) (hflight : s.flight = none) (band : Band)
    (hn : 5 ≤ n) :
    s.Grants timing n (.start band) fun v ↦
      v.Idles s.chip.searchPolls (s.attributes.restarted band) := by
  obtain ⟨d, hobeys, hpowered, hpolls⟩ := s.chip.obeys_startCommands timing band
  have hplan : Plan.build timing (.start band) s.attributes s.scanMode =
      .ok (some (.ofCommands (.start band) (Plan.startCommands timing band) (.started band))) := rfl
  refine grants_of_obeys hplan hflight (by simp) ?_ hobeys hpowered hpolls rfl hn
  rw [hstate]
  rfl

/-! ## Scans -/

/-- A radio that is scanning, will come to the end of the scan and will have kept its settings. -/
def Scans (timing : Timing) (n : Nat) (s : Scene) (a : Attributes) : Prop :=
  s.state = .scanning ∧ ∃ v : Scene, v.state = .started ∧ v.scanMode = none ∧ v.flight = none ∧
    a.Retains v.attributes ∧ Course timing Scanning n s v

theorem retains_heard (c : Chip) (found : Option Freq) (a : Attributes) :
    a.Retains (c.heard found a) := by
  cases found with
  | none => exact .refl a
  | some f => exact ⟨rfl, rfl, rfl, fun _ ↦ rfl⟩

theorem Idles.grants_scan (h : s.Idles polls a) (hn : 3 ≤ n) (hband : a.band ∈ Band.presets)
    (hgrid : a.OnGrid) (direction : Direction) :
    s.Grants timing n direction.operation fun v ↦ v.Scans timing (2 * polls + 6) a := by
  have hband' : s.attributes.band ∈ Band.presets := by rwa [h.attributes]
  obtain ⟨d, hobeys, hsearched⟩ :=
    Chip.obeys_searchCommands h.powered direction.isUp s.attributes.threshold
  obtain ⟨found, hyields, -⟩ := hsearched.yields rfl (Band.inRange_of_preset hband')
  refine ⟨h.flight, by cases direction <;> simp [Direction.operation], fun id ↦ ?_⟩
  obtain ⟨u, v, e, hbegins, rfl, -, hcourse, hscan⟩ := course_scan (.inl h.state) h.powered hband'
    (by rwa [h.attributes]) direction hobeys hsearched hyields (some id) timing
  rw [h.searchPolls] at hscan
  refine ⟨u, _, hbegins, hcourse.le (by omega), rfl, ?_, rfl, _, rfl, rfl, rfl, ?_, hscan⟩
  · simp [searching, closed]
  · rw [← h.attributes]
    exact retains_heard d found s.attributes

theorem Idles.grants_fullScan (h : s.Idles polls a) (hn : 3 ≤ n) (hband : a.band ∈ Band.presets)
    (hgrid : a.OnGrid) (hroom : 0 < timing.maxStations) :
    s.Grants timing n .fullScan fun v ↦
      v.Scans timing (timing.maxStations * (2 * polls + 7)) a := by
  refine ⟨h.flight, by simp, fun id ↦ ?_⟩
  obtain ⟨u, v, w, hbegins, hclimbs, hledger, hlists, hkept, hcourse, hscan⟩ :=
    course_fullScan (.inl h.state) h.powered (by rwa [h.attributes]) (by rwa [h.attributes]) hroom
      (some id)
  rw [h.searchPolls] at hscan
  refine ⟨u, v, hbegins, hcourse.le hn, hclimbs.inScan.flight, ?_, hclimbs.inScan.state, w,
    hlists.state, hlists.scanMode, hlists.flight, ?_, hscan⟩
  · rw [hledger]
    simp [closed]
  · rwa [← h.attributes]

/-- How many deliveries a scan takes at most. -/
def scanDeliveries (timing : Timing) (polls : Nat) : Nat :=
  timing.maxStations * (2 * polls + 7) + (2 * polls + 6)

/-- What is seen once all operations are done: a radio that idles, or one that has begun the scan
which was asked for. -/
def Granted (timing : Timing) (polls : Nat) (scan : Option ScanMode) (a : Attributes)
    (s : Scene) : Prop :=
  (scan = none → s.Idles polls a) ∧
    (scan ≠ none → s.Scans timing (scanDeliveries timing polls) a)

theorem Scans.le {m : Nat} (h : s.Scans timing m a) (hle : m ≤ n) : s.Scans timing n a := by
  obtain ⟨hstate, v, hend, hmode, hflight, hkept, hcourse⟩ := h
  exact ⟨hstate, v, hend, hmode, hflight, hkept, hcourse.le hle⟩

theorem Idles.grantsAll_scan (h : s.Idles polls a) (hn : 3 ≤ n) (hband : a.band ∈ Band.presets)
    (hgrid : a.OnGrid) (hroom : 0 < timing.maxStations) (scan : Option ScanMode) :
    GrantsAll timing n (scan.toList.map Options.scanOperation) s
      (Granted timing polls scan a) := by
  cases scan with
  | none => exact ⟨fun _ ↦ h, fun hne ↦ absurd rfl hne⟩
  | some mode =>
      have hscans : s.Grants timing n (Options.scanOperation mode) fun v ↦
          v.Scans timing (scanDeliveries timing polls) a := by
        cases mode with
        | up =>
            exact (h.grants_scan hn hband hgrid .up).mono fun _ hv ↦ hv.le (Nat.le_add_left _ _)
        | down =>
            exact (h.grants_scan hn hband hgrid .down).mono fun _ hv ↦ hv.le (Nat.le_add_left _ _)
        | full =>
            exact (h.grants_fullScan hn hband hgrid hroom).mono fun _ hv ↦
              hv.le (Nat.le_add_right _ _)
      exact hscans.mono fun _ hv ↦ ⟨by simp, fun _ ↦ hv⟩

end Scene

/-! ## Errands -/

/-- The attributes that the options ask for on a band, before any scan. -/
def Options.attributes (o : Options) (band : Band) : Attributes where
  band
  frequency := o.tune.map Freq.mk
  threshold := o.threshold.getD defaultThreshold
  forceMono := o.mono

/-- All that the options ask for is granted to a radio that is fresh. -/
theorem Options.grantsAll_operations (o : Options) {timing : Timing} {band : Band} {s : Scene}
    (hstate : s.state = .idle) (hflight : s.flight = none) (hattributes : s.attributes = {})
    (hband : band ∈ Band.presets)
    (htune : ∀ khz, o.tune = some khz → band.isValid ⟨khz⟩ = true)
    (hroom : 0 < timing.maxStations) :
    Scene.GrantsAll timing 5 (o.operations band) s
      (Scene.Granted timing s.chip.searchPolls o.scan (o.attributes band)) := by
  have hgrid : (o.attributes band).OnGrid := by
    intro f hf
    obtain ⟨khz, hkhz, rfl⟩ := Option.map_eq_some_iff.mp hf
    exact htune khz hkhz
  refine .append (.append (.append (.append ?_)))
  refine (Scene.grants_start hstate hflight band le_rfl).mono fun v hv ↦ ?_
  rw [hattributes] at hv
  refine (hv.grantsAll_threshold o.threshold).mono fun v hv ↦ ?_
  refine (hv.grantsAll_mono (by decide) o.mono).mono fun v hv ↦ ?_
  refine (hv.grantsAll_tune (by decide) hband htune).mono fun v hv ↦ ?_
  have hv' : v.Idles s.chip.searchPolls (o.attributes band) := by
    simpa [Attributes.restarted, Options.attributes] using hv
  exact hv'.grantsAll_scan (by decide) hband hgrid hroom o.scan

end FmTuner
