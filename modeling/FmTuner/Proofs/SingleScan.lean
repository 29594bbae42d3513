import FmTuner.Proofs.FullScan
import FmTuner.Proofs.Tuning

/-!
# Single scans

A scan up or down searches beyond the frequency to which the chip is tuned, polls until the search
is over and reads the station on which it has stopped. If there is none, or none on a channel, the
radio knows what it knew before. Either way the end of the scan tunes the chip to what is known.
-/

namespace FmTuner

namespace Direction

def isUp : Direction → Bool
  | .up => true
  | .down => false

def mode : Direction → ScanMode
  | .up => .up
  | .down => .down

/-- The operation that scans in a direction. -/
def operation : Direction → Operation
  | .up => .scanUp
  | .down => .scanDown

/-- Whether a frequency lies strictly beyond another. -/
def Beyond : Direction → Freq → Freq → Prop
  | .up, f, g => f.khz < g.khz
  | .down, f, g => g.khz < f.khz

instance : (direction : Direction) → (f g : Freq) → Decidable (direction.Beyond f g)
  | .up, f, g => inferInstanceAs (Decidable (f.khz < g.khz))
  | .down, f, g => inferInstanceAs (Decidable (g.khz < f.khz))

end Direction

/-! ## The course of a scan -/

/-- The attributes after a poll that has read a channel, or has failed. -/
def Chip.heard (c : Chip) (found : Option Freq) (a : Attributes) : Attributes :=
  match found with
  | some f => (c.readings f).tune a
  | none => a

namespace Scene

variable {timing : Timing} {s : Scene} {mode : ScanMode} {found : Option Freq}

def pollStatus (found : Option Freq) : Status := if found.isSome then .done else .fail

/-- The scene after the last poll of a single scan. -/
def heard (s : Scene) (mode : ScanMode) (found : Option Freq) : Scene :=
  (s.waited mode).polled mode (pollStatus found) (s.waited mode).chip
    (s.chip.heard found s.attributes)

/-- A single scan polls until the search is over, reads the station and ends. -/
theorem InScan.course_single (h : s.InScan mode) (hmode : mode ≠ .full)
    (hyields : s.chip.Yields s.attributes.band found)
    (hknown : ∀ f, (s.chip.heard found s.attributes).frequency = some f → f.InRegister)
    (timing : Timing) :
    ∃ d, s.chip.Same d ∧
      (∀ f, (s.chip.heard found s.attributes).frequency = some f → d.tuned = f) ∧
      Course timing Scanning (2 * s.chip.busyReads + 6) s
        ((s.heard mode found).scanned mode false d) := by
  obtain ⟨u, d, hbegins, hsame, htuned, hdone⟩ :=
    course_done (s := s.heard mode found) h.state h.powered hknown mode false timing
  refine ⟨d, ⟨hsame.powered, hsame.stations, hsame.searchPolls, hsame.control⟩, htuned, ?_⟩
  cases found with
  | none =>
      have hfailed := h.waited.course_failed rfl hyields.idle hbegins
      exact (h.course_after le_rfl (hfailed.trans hdone)).le (by omega)
  | some f =>
      have hpoll : ((s.waited mode).chip.readings f).poll mode timing.maxStations
          (s.waited mode).attributes =
            .ok (s.chip.heard (some f) s.attributes, .scanDone mode false) := by
        have hstation : ((s.waited mode).chip.readings f).station mode = none := by
          cases mode <;> first | rfl | exact absurd rfl hmode
        rw [Readings.poll, hstation]
        rfl
      have hread := h.waited.course_found rfl hyields.idle hpoll hbegins
      exact h.course_after le_rfl (hread.trans hdone)

/-- A request for a single scan leads to a search, and from there to the end of the scan. -/
theorem course_scan (hstate : s.state = .started ∨ s.state = .paused)
    (hpowered : s.chip.powered = true) (hband : s.attributes.band ∈ Band.presets)
    (hgrid : s.attributes.OnGrid) (direction : Direction) {q : Chip.Search} {d : Chip}
    (hobeys : s.chip.Obeys (Plan.searchCommands direction.isUp s.attributes.threshold) d)
    (hsearched : s.chip.Searched q d) (hyields : d.Yields s.attributes.band found)
    (id : Option RequestId) (timing : Timing) :
    ∃ u v : Scene, ∃ e : Chip, s.Begins timing { id, operation := direction.operation } u ∧
      v = s.searching { id, operation := direction.operation } direction.mode s.attributes d ∧
      (∀ f, (d.heard found s.attributes).frequency = some f → e.tuned = f) ∧
      Course timing (Carries s.state { id, operation := direction.operation }) 2 u v ∧
      Course timing Scanning (2 * s.chip.searchPolls + 6) v
        ((v.heard direction.mode found).scanned direction.mode false e) := by
  let r : Request := { id, operation := direction.operation }
  have hroute : route s.state r.operation = .accept .scanning := by
    rcases hstate with h | h <;> rw [h] <;> cases direction <;> rfl
  have hplan : Plan.build timing r.operation s.attributes s.scanMode =
      .ok (some (.ofCommands r.operation
        (Plan.searchCommands direction.isUp s.attributes.threshold) .none)) := by
    cases direction <;> rfl
  have hmode : r.operation.scanMode.or s.scanMode = some direction.mode := by
    cases direction <;> rfl
  obtain ⟨u, hbegins, hcourse⟩ := course_search hroute hplan hmode (fun _ ↦ rfl) hobeys
  let v := s.searching r direction.mode s.attributes d
  have hin : v.InScan direction.mode := ⟨rfl, rfl, rfl, hsearched.same.powered.trans hpowered⟩
  have hknown : ∀ f, (d.heard found s.attributes).frequency = some f → f.InRegister := by
    intro f hf
    refine Band.inRegister_of_preset hband ?_
    cases hyields with
    | missed | strayed => exact hgrid f hf
    | found _ _ hsnap =>
        cases hf
        exact Band.isValid_of_snap hsnap
  have hsingle : direction.mode ≠ .full := by cases direction <;> simp [Direction.mode]
  obtain ⟨e, -, htuned, hscan⟩ := hin.course_single hsingle hyields hknown timing
  have hbusy : v.chip.busyReads = s.chip.searchPolls := hsearched.busyReads
  rw [hbusy] at hscan
  exact ⟨u, v, e, hbegins, rfl, htuned, hcourse, hscan⟩

end Scene

/-! ## The nearest station -/

/-- A search beyond a frequency stops on a transmitter, unless there is a nearer one: it lies there
within the limits of the chip, and is as strong as the threshold asks for. -/
structure Chip.Meets (c : Chip) (threshold : Nat) (direction : Direction) (f : Freq)
    (s : Transmitter) : Prop where
  beyond : direction.Beyond f s.freq
  strong : 110 - threshold / 10 ≤ s.rssi.toNat
  min : c.band.min.khz ≤ s.khz
  max : s.khz ≤ c.band.max.khz

/-- The nearest of the transmitters on which a search may stop, if there is any. -/
def Chip.Nearest (c : Chip) (stations : List Transmitter) (threshold : Nat) (direction : Direction)
    (f : Freq) : Option Transmitter → Prop
  | some t =>
      t ∈ stations ∧ c.Meets threshold direction f t ∧
        ∀ s ∈ stations, c.Meets threshold direction f s → s = t ∨ direction.Beyond t.freq s.freq
  | none => ∀ s ∈ stations, ¬ c.Meets threshold direction f s

namespace Chip

variable {c d : Chip} {f : Freq} {threshold : Nat} {direction : Direction}

theorem nearest_of_search (hsorted : c.stations.Pairwise (·.khz < ·.khz))
    (hahead : ∀ s, (c.searchFor direction.isUp threshold).ahead s = true ↔
      if direction.isUp then f.khz < s.khz else s.khz < f.khz) :
    c.Nearest c.stations threshold direction f
      ((c.searchFor direction.isUp threshold).find? c.stations) := by
  have hmeets : ∀ s, (c.searchFor direction.isUp threshold).stopsOn s = true ↔
      c.Meets threshold direction f s := by
    intro s
    have hbeyond : (c.searchFor direction.isUp threshold).ahead s = true ↔
        direction.Beyond f s.freq := by
      rw [hahead]
      cases direction <;> rfl
    rw [Search.stopsOn_iff_ahead, hbeyond]
    simp only [searchFor, Register.searchLevel_le]
    constructor
    · rintro ⟨hbeyond, hstrong, hmin, hmax⟩
      exact ⟨hbeyond, hstrong, hmin, hmax⟩
    · rintro ⟨hbeyond, hstrong, hmin, hmax⟩
      exact ⟨hbeyond, hstrong, hmin, hmax⟩
  -- In either direction the stations are looked at from the near to the far ones.
  let facing := if direction.isUp then c.stations else c.stations.reverse
  have hmem : ∀ s, s ∈ facing ↔ s ∈ c.stations := by
    intro s
    cases direction <;> simp [facing, Direction.isUp]
  have hfacing : facing.Pairwise fun s t ↦ direction.Beyond s.freq t.freq := by
    cases direction with
    | up => exact hsorted
    | down => exact List.pairwise_reverse.mpr hsorted
  have hfind : (c.searchFor direction.isUp threshold).find? c.stations =
      facing.find? (c.searchFor direction.isUp threshold).stopsOn := rfl
  rw [hfind]
  cases hfound : facing.find? (c.searchFor direction.isUp threshold).stopsOn with
  | none =>
      intro s hs hmet
      exact List.find?_eq_none.mp hfound s ((hmem s).mpr hs) ((hmeets s).mpr hmet)
  | some t =>
      refine ⟨(hmem t).mp (List.mem_of_find?_eq_some hfound),
        (hmeets t).mp (List.find?_some hfound), fun s hs hmet ↦ ?_⟩
      exact rel_of_find? hfacing hfound ((hmem s).mpr hs) ((hmeets s).mpr hmet)

/-- The chip keeps the transmitters of its settings, in another order. -/
theorem Nearest.settings {settings : ChipSettings} {found : Option Transmitter}
    (hstations : c.stations = (ofSettings settings).stations)
    (h : c.Nearest c.stations threshold direction f found) :
    c.Nearest settings.stations threshold direction f found := by
  have hmem : ∀ s, s ∈ c.stations ↔ s ∈ settings.stations := fun s ↦ by
    rw [hstations]
    exact ChipSettings.mem_stations
  cases found with
  | none => exact fun s hs ↦ h s ((hmem s).mpr hs)
  | some t =>
      obtain ⟨ht, hmeets, hnearest⟩ := h
      exact ⟨(hmem t).mp ht, hmeets, fun s hs ↦ hnearest s ((hmem s).mpr hs)⟩

theorem stationAt?_of_mem (hsorted : c.stations.Pairwise (·.khz < ·.khz)) {t : Transmitter}
    (ht : t ∈ c.stations) : c.stationAt? t.freq = some t := by
  cases hfind : c.stationAt? t.freq with
  | none => simpa [Transmitter.freq] using List.find?_eq_none.mp hfind t ht
  | some s =>
      have hkhz : s.khz = t.khz := by
        have hsome := List.find?_some hfind
        exact of_decide_eq_true hsome
      rcases rel_of_find? hsorted hfind ht (by simp [Transmitter.freq]) with rfl | hlt
      · rfl
      · exact absurd hlt (by simp [hkhz])

end Chip

/-- The attributes after a single scan that has stopped on a transmitter, or on none. -/
def Attributes.receive (a : Attributes) : Option Transmitter → Attributes
  | some t =>
      { a with frequency := some t.freq, signalStrength := some t.rssi, stereo := t.stereo }
  | none => a

theorem Chip.Searched.receives {c d : Chip} {q : Search} (h : c.Searched q d) {a : Attributes}
    (hband : a.band ∈ Band.presets) (hsorted : c.stations.Pairwise (·.khz < ·.khz))
    (hvalid : ∀ t, q.find? c.stations = some t → t ∈ c.stations ∧ a.band.isValid t.freq = true) :
    d.Yields a.band ((q.find? c.stations).map Transmitter.freq) ∧
      d.heard ((q.find? c.stations).map Transmitter.freq) a = a.receive (q.find? c.stations) := by
  cases hfind : q.find? c.stations with
  | none => exact ⟨.missed (h.missed hfind).2, rfl⟩
  | some t =>
      obtain ⟨ht, hchannel⟩ := hvalid t hfind
      have htuned : d.tuned = t.freq := (h.found t hfind).1
      have hflags := h.flags_of_found hfind
      have hstation : d.stationAt? t.freq = some t := by
        rw [stationAt?, h.same.stations]
        exact stationAt?_of_mem hsorted ht
      constructor
      · have hsnap := Band.snap_of_isValid (Band.inRange_of_preset hband) hchannel
        rw [← htuned] at hsnap
        refine .found hflags ?_ ?_
        · rw [htuned]
          exact Band.inRegister_of_preset hband hchannel
        · rw [hsnap, htuned]
      · simp [heard, readings, Readings.tune, Attributes.receive, htuned, rssiAt, stereoAt, hstation]

/-! ## Circuits -/

/-- A circuit that rests after a single scan which has stopped on a transmitter, or on none. Before
the scan there were the journal `earlier` and the attributes `a`. -/
structure Circuit.Sought (c : Circuit) (history earlier : Journal) (direction : Direction)
    (polls : Nat) (a : Attributes) (found : Option Transmitter) : Prop where
  state : c.receiver.radio.state = .started
  pending : c.receiver.radio.pending = none
  queue : c.receiver.radio.queue = []
  quiet : ∀ event, ¬ c.Live history event
  attributes : c.receiver.radio.attributes = a.receive found
  results : history.results = earlier.results ++
    [.scanResult (a.receive found).frequency (a.receive found).signalStrength direction false]
  endings : history.endings = earlier.endings ++ (direction.operation, .done) ::
    (List.replicate polls (.pollScan direction.mode, .cancel) ++
      [(.pollScan direction.mode, if found.isSome then .done else .fail),
        (.scanDone direction.mode false, .done)])
  tuned : ∀ f, c.receiver.radio.attributes.frequency = some f → c.receiver.chip.tuned = f

namespace Circuit

variable {timing : Timing} {settings : ChipSettings} {events : List Event} {history : Journal}
  {c : Circuit}

theorem sought_of_shown {s : Scene} {direction : Direction} {d e : Chip}
    {found : Option Transmitter} {id : Option RequestId} {earlier : Journal}
    (hledger : s.ledger = earlier.ledger) (hpolls : d.busyReads = settings.searchPolls)
    (hheard : d.heard (found.map Transmitter.freq) s.attributes = s.attributes.receive found)
    (htuned : ∀ f, (s.attributes.receive found).frequency = some f → e.tuned = f)
    (h : (((s.searching { id, operation := direction.operation } direction.mode s.attributes
      d).heard direction.mode (found.map Transmitter.freq)).scanned direction.mode false e).Shown
        timing settings history c) :
    c.Sought history earlier direction settings.searchPolls s.attributes found := by
  have hattributes : c.receiver.radio.attributes = s.attributes.receive found :=
    h.radio.attributes.trans hheard
  have hstatus : Scene.pollStatus (found.map Transmitter.freq) =
      if found.isSome then .done else .fail := by
    cases found <;> rfl
  have hended := h.ledger
  simp only [Scene.scanned, Scene.closed, Scene.heard, Scene.polled, Scene.waited, Scene.searching,
    hledger, hpolls, hstatus, hheard] at hended
  refine ⟨h.radio.state, h.radio.pending_none rfl, h.queue, h.quiet rfl (by simp [Scene.scanned]),
    hattributes, ?_, ?_, fun f hf ↦ ?_⟩
  · have hresults := congrArg Ledger.results hended
    cases direction <;>
      simpa [Journal.ledger, Plan.scanNotice, Direction.mode] using hresults
  · have hendings := congrArg Ledger.endings hended
    simpa [Journal.ledger] using hendings
  · rw [h.chip]
    rw [hattributes] at hf
    exact htuned f hf

end Circuit

/-- A single scan finds the nearest station beyond the frequency that the radio is tuned to, if
there is one that is strong enough within the limits of the chip; else the radio knows what it knew
before. It takes as many polls as the search stays busy, and one more, and is reported once. In the
end the chip is tuned to what the radio knows. -/
theorem single_scan_finds_nearest_station {timing : Timing} {settings : ChipSettings}
    {events : List Event} {history : Journal} {c : Circuit}
    (h : Circuit.Reaches timing settings events history c)
    (hpending : c.receiver.radio.pending = none) (hqueue : c.receiver.radio.queue = [])
    (hstate : c.receiver.radio.state = .started ∨ c.receiver.radio.state = .paused) {f : Freq}
    (hfrequency : c.receiver.radio.attributes.frequency = some f)
    (hband : c.receiver.radio.attributes.band ∈ Band.presets)
    (hdistinct : (settings.stations.map Transmitter.khz).Nodup)
    (hchannels : ∀ s ∈ settings.stations, c.receiver.chip.band.min.khz ≤ s.khz →
      s.khz ≤ c.receiver.chip.band.max.khz →
      c.receiver.radio.attributes.band.isValid s.freq = true)
    (direction : Direction) (id : Option RequestId) :
    ∃ found, c.receiver.chip.Nearest settings.stations c.receiver.radio.attributes.threshold
        direction f found ∧
      ∃ d journal, c.step (.request ⟨id, direction.operation⟩) = .ok (d, journal) ∧
        Circuit.Arrives
          (fun later e ↦ e.Sought later history direction settings.searchPolls
            c.receiver.radio.attributes found)
          (2 * settings.searchPolls + 8) (history ++ journal) d := by
  have htunedState : c.receiver.radio.state.isTuned = true := by
    rcases hstate with hstate | hstate <;> rw [hstate] <;> rfl
  have hon := RadioState.isOn_of_isTuned htunedState
  have hfine : c.receiver.radio.state ≠ .error := by
    rcases hstate with hstate | hstate <;> simp [hstate]
  have hpowered : c.receiver.chip.powered = true :=
    congrArg Setup.powered (h.mirrors hpending hon)
  have hregister : c.receiver.radio.attributes.band.InRegister := by
    have hall : ∀ b ∈ Band.presets, b.InRegister := by decide
    exact hall _ hband
  have hsorted : c.receiver.chip.stations.Pairwise (·.khz < ·.khz) := by
    rw [h.stations.1]
    exact ChipSettings.sorted_stations hdistinct
  -- The chip is on its channel, so the search stops on the nearest station beyond it.
  obtain ⟨d, hobeys, hsearched, hahead⟩ :=
    (h.tunes hpending hregister htunedState f hfrequency).searchesBeyond hpowered direction.isUp
      c.receiver.radio.attributes.threshold
  have hnearest := (Chip.nearest_of_search hsorted hahead).settings h.stations.1
  let found := (c.receiver.chip.searchFor direction.isUp
    c.receiver.radio.attributes.threshold).find? c.receiver.chip.stations
  obtain ⟨hyields, hheard⟩ := hsearched.receives hband hsorted fun t ht ↦ by
    rw [ht] at hnearest
    obtain ⟨hmem, hmeets, -⟩ := hnearest
    refine ⟨?_, hchannels t hmem hmeets.min hmeets.max⟩
    rw [h.stations.1]
    exact ChipSettings.mem_stations.mpr hmem
  obtain ⟨u, v, e, hbegins, rfl, htuned, hcourse, hscan⟩ :=
    Scene.course_scan (s := c.scene history) hstate hpowered hband h.onGrid direction hobeys
      hsearched hyields id timing
  have hshown := h.shown hpending hqueue hfine
  obtain ⟨d', journal, hstep, hu⟩ := hshown.request rfl hbegins
  refine ⟨found, hnearest, d', journal, hstep, ?_⟩
  have hleads := (hcourse.leads settings).trans (hscan.leads settings)
  have hpolls : (c.scene history).chip.searchPolls = settings.searchPolls := h.stations.2
  rw [hpolls] at hleads
  refine ((hleads _ _ hu).le (by omega)).mono fun later e' he ↦ ?_
  have hbusy := hsearched.busyReads.trans h.stations.2
  exact Circuit.sought_of_shown (s := c.scene history) rfl hbusy hheard
    (fun g hg ↦ htuned g ((congrArg Attributes.frequency hheard).trans hg)) he

/-- A start, and a channel that is set. -/
def setToChannel : List Event :=
  [.ready, .request ⟨none, .start .europeUs⟩] ++ startAnswers ++
    [.request ⟨none, .setFrequency ⟨95800⟩⟩, .callback (.vendor 0xfc15 [0, 10, 0]),
      .callback (.vendor 0xfc15 [0, 9, 0])]

theorem scan_up_finds_strong_station :
    ∃ history c d journal, Circuit.Reaches {} twoStrongStations setToChannel history c ∧
      c.receiver.radio.attributes.frequency = some ⟨95800⟩ ∧
      c.step (.request ⟨some 7, .scanUp⟩) = .ok (d, journal) ∧
        Circuit.Arrives
          (fun later e ↦ e.Sought later history .up 1 c.receiver.radio.attributes
            (some ⟨101100, 70, false⟩)) 10 (history ++ journal) d := by
  have hstart : Circuit.Reaches {} twoStrongStations [] [] (.start {} twoStrongStations) := .start
  obtain ⟨⟨c, journal⟩, hrun, hpending, hqueue, hstate, hattributes, hregion⟩ :
      ∃ x, (Circuit.start {} twoStrongStations).run setToChannel = some x ∧
        x.1.receiver.radio.pending = none ∧ x.1.receiver.radio.queue = [] ∧
          x.1.receiver.radio.state = .started ∧
            x.1.receiver.radio.attributes = { frequency := some ⟨95800⟩ } ∧
              x.1.receiver.chip.band = .europeUs := by
    refine ⟨_, rfl, ?_⟩
    decide
  have h := hstart.run hrun
  have hfrequency : c.receiver.radio.attributes.frequency = some ⟨95800⟩ := by rw [hattributes]
  have hchannels : ∀ s ∈ twoStrongStations.stations, c.receiver.chip.band.min.khz ≤ s.khz →
      s.khz ≤ c.receiver.chip.band.max.khz →
      c.receiver.radio.attributes.band.isValid s.freq = true := by
    rw [hattributes, hregion]
    decide
  obtain ⟨found, hnearest, d, later, hstep, harrives⟩ := single_scan_finds_nearest_station h
    hpending hqueue (.inl hstate) hfrequency (by rw [hattributes]; decide) (by decide) hchannels .up
    (some 7)
  have hstrong : c.receiver.chip.Meets c.receiver.radio.attributes.threshold .up ⟨95800⟩
      ⟨101100, 70, false⟩ := by
    rw [hattributes]
    exact ⟨by decide, by decide, by rw [hregion]; decide, by rw [hregion]; decide⟩
  -- The only other station that is strong enough lies below.
  have hfound : found = some ⟨101100, 70, false⟩ := by
    cases found with
    | none => exact absurd hstrong (hnearest _ (by decide))
    | some t =>
        obtain ⟨hmem, hmeets, -⟩ := hnearest
        have habove : 95800 < t.khz := hmeets.beyond
        have hlevel := hmeets.strong
        rw [hattributes] at hlevel
        simp only [twoStrongStations, List.mem_cons, List.not_mem_nil, or_false] at hmem
        rcases hmem with rfl | rfl | rfl
        · rfl
        · simp at habove
        · simp at habove
  rw [hfound] at harrives
  exact ⟨_, c, d, later, h, hfrequency, hstep, harrives⟩

/-- A strong station far above the limits of the chip. -/
def farStation : ChipSettings where
  stations := [⟨120000, 100, false⟩]

/-- The answers and polls of a scan up that starts on a channel and misses. -/
def missedScan : List Event :=
  [.request ⟨none, .scanUp⟩, .callback (.vendor 0xfc15 [0, 7, 0]),
    .callback (.vendor 0xfc15 [0, 9, 0]), .pollDue 3, .callback (.vendor 0xfc15 [0, 18, 1, 0, 0]),
    .pollDue 4, .callback (.vendor 0xfc15 [0, 18, 1, 3, 0]), .callback (.vendor 0xfc15 [0, 10, 0]),
    .callback (.vendor 0xfc15 [0, 9, 0])]

/-- A scan does not find what lies beyond the limits of the chip, be it ever so strong. -/
theorem station_out_of_limits_is_missed :
    ∃ history c later d, Circuit.Reaches {} farStation setToChannel history c ∧
      c.receiver.radio.pending = none ∧ c.receiver.radio.queue = [] ∧
      c.receiver.radio.state = .started ∧
      c.receiver.radio.attributes.frequency = some ⟨95800⟩ ∧
      c.receiver.radio.attributes.band ∈ Band.presets ∧
      (farStation.stations.map Transmitter.khz).Nodup ∧
      (∀ s ∈ farStation.stations, c.receiver.chip.band.min.khz ≤ s.khz →
        s.khz ≤ c.receiver.chip.band.max.khz →
        c.receiver.radio.attributes.band.isValid s.freq = true) ∧
      (∃ s ∈ farStation.stations, Direction.up.Beyond ⟨95800⟩ s.freq ∧
        110 - c.receiver.radio.attributes.threshold / 10 ≤ s.rssi.toNat) ∧
      Circuit.Reaches {} farStation (setToChannel ++ missedScan) later d ∧
      d.receiver.radio.state = .started ∧ d.receiver.radio.pending = none ∧ d.inFlight = [] ∧
      ∀ s ∈ farStation.stations, d.receiver.radio.attributes.frequency ≠ some s.freq := by
  have hstart : Circuit.Reaches {} farStation [] [] (.start {} farStation) := .start
  obtain ⟨⟨c, journal⟩, hrun, hpending, hqueue, hstate, hattributes, hregion⟩ :
      ∃ x, (Circuit.start {} farStation).run setToChannel = some x ∧
        x.1.receiver.radio.pending = none ∧ x.1.receiver.radio.queue = [] ∧
          x.1.receiver.radio.state = .started ∧
            x.1.receiver.radio.attributes = { frequency := some ⟨95800⟩ } ∧
              x.1.receiver.chip.band = .europeUs := by
    refine ⟨_, rfl, ?_⟩
    decide
  have hmissed : ((Circuit.start {} farStation).run (setToChannel ++ missedScan)).any (fun x ↦
      x.1.receiver.radio.state = .started ∧ x.1.receiver.radio.pending = none ∧ x.1.inFlight = [] ∧
        x.1.receiver.radio.attributes.frequency = some ⟨95800⟩) = true := by
    decide +kernel
  obtain ⟨⟨d, later⟩, hscan, hd⟩ := (Option.any_eq_true _ _).mp hmissed
  obtain ⟨hended, hrests, hquiet, hfrequency⟩ := of_decide_eq_true hd
  refine ⟨_, c, _, d, hstart.run hrun, hpending, hqueue, hstate, ?_, ?_, by decide, ?_, ?_,
    hstart.run hscan, hended, hrests, hquiet, ?_⟩
  · rw [hattributes]
  · rw [hattributes]
    decide
  · rw [hattributes, hregion]
    decide
  · rw [hattributes]
    exact ⟨_, List.mem_singleton_self _, by decide, by decide⟩
  · rw [hfrequency]
    decide

end FmTuner
