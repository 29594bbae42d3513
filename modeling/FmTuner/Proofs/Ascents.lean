import FmTuner.Proofs.FullScan

/-!
# Full scans come to an end

Wherever the transmitters are, a full scan climbs. Each of its searches begins one spacing above the
channel to which the last station was rounded, and what it finds is rounded to no channel below
that. So the channels on the list grow strictly, until there is no room for another one, no channel
above or nothing more to find.
-/

namespace FmTuner

/-- The stations on the list are channels of the band, from the bottom upwards. -/
structure Attributes.Ascends (a : Attributes) : Prop where
  ordered : a.stations.Pairwise (·.freq.khz < ·.freq.khz)
  channels : ∀ t ∈ a.stations, a.band.isValid t.freq = true

/-- The attributes after a poll of a full scan that has read a channel. -/
def Chip.listed (c : Chip) (f : Freq) (a : Attributes) : Attributes :=
  { (c.readings f).tune a with stations := a.stations ++ [⟨f, c.rssiAt c.tuned⟩] }

theorem Chip.retains_listed (c : Chip) (f : Freq) (a : Attributes) : a.Retains (c.listed f a) :=
  ⟨rfl, rfl, rfl, fun _ ↦ rfl⟩

theorem Attributes.Ascends.listed {a : Attributes} (h : a.Ascends) {next f : Freq}
    (hbelow : ∀ t ∈ a.stations, t.freq.khz < next.khz) (hle : next.khz ≤ f.khz)
    (hf : a.band.isValid f = true) (c : Chip) : (c.listed f a).Ascends := by
  constructor
  · refine List.pairwise_append.mpr ⟨h.ordered, List.pairwise_singleton _ _, fun t ht u hu ↦ ?_⟩
    rw [List.mem_singleton.mp hu]
    exact Nat.lt_of_lt_of_le (hbelow t ht) hle
  · intro t ht
    rcases List.mem_append.mp ht with ht | ht
    · exact h.channels t ht
    · rw [List.mem_singleton.mp ht]
      exact hf

theorem Chip.Yields.channel {c : Chip} {band : Band} {f : Freq} (h : c.Yields band (some f)) :
    band.isValid f = true := by
  cases h with
  | found _ _ hsnap => exact Band.isValid_of_snap hsnap

namespace Scene

variable {timing : Timing} {s : Scene} {next : Freq}

/-- A full scan that waits for a search from a channel, with all its stations below. -/
structure Climbs (s : Scene) (next : Freq) : Prop where
  inScan : s.InScan .full
  busy : s.chip.busyReads ≤ s.chip.searchPolls
  band : s.attributes.band ∈ Band.presets
  onGrid : s.attributes.OnGrid
  ascends : s.attributes.Ascends
  below : ∀ t ∈ s.attributes.stations, t.freq.khz < next.khz
  yields : ∃ found, s.chip.Yields s.attributes.band found ∧ ∀ f, found = some f → next.khz ≤ f.khz

/-- A full scan that is over and has reported an ascending list. -/
structure Lists (s : Scene) (old : List Notification) (capacity : Nat) : Prop where
  state : s.state = .started
  scanMode : s.scanMode = none
  flight : s.flight = none
  results : s.ledger.results = old ++
    [.fullScanResult (s.attributes.stations.map Station.freq)
      (s.attributes.stations.map Station.signal) false]
  ascends : s.attributes.Ascends
  length : s.attributes.stations.length ≤ capacity

theorem course_listed (hstate : s.state = .scanning) (hpowered : s.chip.powered = true)
    (hband : s.attributes.band ∈ Band.presets) (hgrid : s.attributes.OnGrid)
    (hascends : s.attributes.Ascends) {capacity : Nat}
    (hlength : s.attributes.stations.length ≤ capacity) (timing : Timing) :
    ∃ u, ∃ v : Scene, s.Begins timing { id := none, operation := .scanDone .full false } u ∧
      v.Lists s.ledger.results capacity ∧ s.attributes.Retains v.attributes ∧
      Course timing Scanning 2 u v := by
  obtain ⟨u, d, hbegins, -, -, hcourse⟩ := course_done hstate hpowered
    (fun f hf ↦ Band.inRegister_of_preset hband (hgrid f hf)) .full false timing
  refine ⟨u, s.scanned .full false d, hbegins, ⟨rfl, rfl, rfl, ?_, hascends, hlength⟩, .refl _,
    hcourse⟩
  simp [scanned, closed, Plan.scanNotice]

/-- A request of a full scan that searches from a channel above all stations on the list. -/
theorem course_climb {r : Request} {hook : Hook}
    (hroute : route s.state r.operation = .accept .scanning)
    (hplan : Plan.build timing r.operation s.attributes s.scanMode =
      .ok (some (.ofCommands r.operation
        (.writeFrequency next :: Plan.searchCommands true s.attributes.threshold) hook)))
    (hmode : r.operation.scanMode.or s.scanMode = some .full) {b : Attributes}
    (hhook : ∀ commands, hook.apply .done commands s.attributes = .ok (b, []))
    (hpowered : s.chip.powered = true) (hband : b.band ∈ Band.presets)
    (hnext : b.band.isValid next = true) (hgrid : b.OnGrid) (hascends : b.Ascends)
    (hbelow : ∀ t ∈ b.stations, t.freq.khz < next.khz) :
    ∃ u, ∃ v : Scene, s.Begins timing r u ∧ v.Climbs next ∧
      v.ledger = s.closed r [] ∧ v.attributes = b ∧
      v.chip.searchPolls = s.chip.searchPolls ∧ Course timing (Carries s.state r) 3 u v := by
  obtain ⟨d, hobeys, hsearched⟩ := Chip.obeys_search_from hpowered
    (Band.inRegister_of_preset hband hnext) s.attributes.threshold
  obtain ⟨u, hbegins, hcourse⟩ := course_search hroute hplan hmode hhook hobeys
  obtain ⟨found, hyields, hfound⟩ := hsearched.yields rfl (Band.inRange_of_preset hband)
  have hsame := hsearched.same
  have hclimbs : (s.searching r .full b d).Climbs next := by
    refine ⟨⟨rfl, rfl, rfl, hsame.powered.trans hpowered⟩, ?_, hband, hgrid, hascends, hbelow,
      found, hyields, fun f hf ↦ ?_⟩
    · exact Nat.le_of_eq (hsearched.busyReads.trans hsame.searchPolls.symm)
    · -- What is found lies at the beginning of the search or above it, and so does its channel.
      obtain ⟨hsnap, t, ht, htuned⟩ := hfound f hf
      have hle := (Chip.upwards_stopsOn.mp (List.find?_some ht)).1
      rw [htuned] at hsnap
      exact Band.le_of_snap hsnap hnext hle
  exact ⟨u, _, hbegins, hclimbs, rfl, rfl, hsame.searchPolls, hcourse⟩

namespace Climbs

theorem waited (h : s.Climbs next) : (s.waited .full).Climbs next := by
  obtain ⟨hinScan, -, hband, hgrid, hascends, hbelow, found, hyields, hfound⟩ := h
  exact ⟨hinScan.waited, Nat.zero_le _, hband, hgrid, hascends, hbelow, found, hyields.idle, hfound⟩

/-- With no channel to read, the scan ends with the list that it has. -/
theorem course_missed (h : s.Climbs next) (hyields : s.chip.Yields s.attributes.band none)
    {capacity : Nat} (hlength : s.attributes.stations.length ≤ capacity) (timing : Timing) :
    ∃ v : Scene, v.Lists s.ledger.results capacity ∧ s.attributes.Retains v.attributes ∧
      Course timing Scanning (2 * s.chip.searchPolls + 5) s v := by
  have hwaited := h.waited
  let w := (s.waited .full).polled .full .fail (s.waited .full).chip (s.waited .full).attributes
  obtain ⟨u, v, hbegins, hlists, hkept, hcourse⟩ := course_listed (s := w) hwaited.inScan.state
    hwaited.inScan.powered h.band h.onGrid h.ascends hlength timing
  have hfailed := hwaited.inScan.course_failed rfl hyields.idle hbegins
  have hresults : w.ledger.results = s.ledger.results := by simp [w, polled, Scene.waited]
  rw [hresults] at hlists
  exact ⟨v, hlists, hkept, h.inScan.course_after h.busy (hfailed.trans hcourse)⟩

/-- The scene in which a channel was read and put on the list. -/
def listed (s : Scene) (f : Freq) : Scene :=
  (s.waited .full).polled .full .done (s.waited .full).chip (s.chip.listed f s.attributes)

section

variable {f : Freq} (h : s.Climbs next) (hyields : s.chip.Yields s.attributes.band (some f))
  (hle : next.khz ≤ f.khz)

include h hyields

theorem course_read {v : Scene}
    (hbegins : (listed s f).Begins timing
      { id := none
        operation :=
          if timing.maxStations ≤ s.attributes.stations.length + 1 ∨
              s.attributes.band.max.khz < f.khz + s.attributes.band.spacing then
            .scanDone .full false
          else .scanStep } v) :
    Course timing Scanning (2 * s.chip.searchPolls + 4) s v := by
  have hpoll := (s.waited .full).chip.poll_full (a := s.attributes)
    (Band.inRange_of_preset h.band) (hyields.channel) timing.maxStations
  exact h.inScan.course_after h.busy
    (h.waited.inScan.course_found rfl hyields.idle hpoll hbegins)

include hle

theorem ascends_listed : (s.chip.listed f s.attributes).Ascends :=
  h.ascends.listed h.below hle (hyields.channel) s.chip

/-- With no room for another station, or no channel above, the scan ends with the channel. -/
theorem course_last (hroom : s.attributes.stations.length < timing.maxStations)
    (hlast : timing.maxStations ≤ s.attributes.stations.length + 1 ∨
      s.attributes.band.max.khz < f.khz + s.attributes.band.spacing) :
    ∃ v : Scene, v.Lists s.ledger.results timing.maxStations ∧
      s.attributes.Retains v.attributes ∧
      Course timing Scanning (2 * s.chip.searchPolls + 6) s v := by
  have hgrid : (s.chip.listed f s.attributes).OnGrid := by
    rintro g ⟨⟩
    exact hyields.channel
  have hlength : (s.chip.listed f s.attributes).stations.length ≤ timing.maxStations := by
    simpa [Chip.listed, Nat.succ_le_iff] using hroom
  obtain ⟨u, v, hbegins, hlists, hkept, hcourse⟩ := course_listed (s := listed s f) h.inScan.state
    h.inScan.powered h.band hgrid (h.ascends_listed hyields hle) hlength timing
  have hresults : (listed s f).ledger.results = s.ledger.results := by
    simp [listed, polled, Scene.waited]
  rw [hresults] at hlists
  refine ⟨v, hlists, (s.chip.retains_listed f s.attributes).trans hkept,
    (h.course_read hyields ?_).trans hcourse⟩
  rw [if_pos hlast]
  exact hbegins

/-- With room for another station and a channel above, the scan searches from there. -/
theorem course_next (hroom : s.attributes.stations.length + 1 < timing.maxStations)
    (habove : f.khz + s.attributes.band.spacing ≤ s.attributes.band.max.khz) :
    ∃ v : Scene, v.Climbs ⟨f.khz + s.attributes.band.spacing⟩ ∧
      v.ledger.results = s.ledger.results ∧ s.attributes.Retains v.attributes ∧
      v.attributes.stations.length = s.attributes.stations.length + 1 ∧
      v.chip.searchPolls = s.chip.searchPolls ∧
      Course timing Scanning (2 * s.chip.searchPolls + 7) s v := by
  have hvalid := hyields.channel
  have hstate : (listed s f).state = .scanning := h.inScan.state
  let above : Freq := ⟨f.khz + s.attributes.band.spacing⟩
  let r : Request := { id := none, operation := .scanStep }
  have hroute : route (listed s f).state r.operation = .accept .scanning := by
    rw [hstate]
    rfl
  have hplan : Plan.build timing r.operation (listed s f).attributes (listed s f).scanMode =
      .ok (some (.ofCommands .scanStep
        (.writeFrequency above :: Plan.searchCommands true s.attributes.threshold) .none)) := by
    have hnext : s.attributes.band.nextChannel f = .ok (some above) :=
      (Band.nextChannel_of_isValid (Band.inRange_of_preset h.band) hvalid).trans
        (congrArg Except.ok (if_pos habove))
    have hknown : (listed s f).attributes.frequency = some f := rfl
    have hband : (listed s f).attributes.band = s.attributes.band := rfl
    simp only [r, Plan.build, hknown, hband, Option.getD_some, hnext, bind, Except.bind]
    rfl
  have hgrid : (s.chip.listed f s.attributes).OnGrid := by
    rintro g ⟨⟩
    exact hvalid
  have hspacing : 0 < s.attributes.band.spacing := (Band.isValid_iff.mp hvalid).2.2.1
  -- All stations so far lie below the channel read, and that lies below the next one.
  have hbelow : ∀ t ∈ (s.chip.listed f s.attributes).stations, t.freq.khz < above.khz := by
    intro t ht
    have hle' : t.freq.khz ≤ f.khz := by
      rcases List.mem_append.mp ht with ht | ht
      · exact ((h.below t ht).trans_le hle).le
      · rw [List.mem_singleton.mp ht]
    exact Nat.lt_of_le_of_lt hle' (Nat.lt_add_of_pos_right hspacing)
  obtain ⟨u, v, hbegins, hclimbs, hledger, hattributes, hpolls, hcourse⟩ :=
    course_climb (s := listed s f) hroute hplan h.inScan.scanMode (fun _ ↦ rfl) h.inScan.powered
      h.band (Band.isValid_next hvalid habove) hgrid (h.ascends_listed hyields hle) hbelow
  rw [hstate] at hcourse
  refine ⟨v, hclimbs, ?_, ?_, ?_, hpolls,
    (h.course_read hyields ?_).trans (hcourse.mono fun _ hv ↦ hv.scanning)⟩
  · rw [hledger]
    simp [closed, listed, polled, Scene.waited]
  · rw [hattributes]
    exact s.chip.retains_listed f s.attributes
  · rw [hattributes]
    simp [listed, polled, Chip.listed]
  · rw [if_neg (by omega)]
    exact hbegins

end

/-- A full scan ends, at the latest when there is no room for another station. -/
theorem course (h : s.Climbs next) {room : Nat}
    (hroom : s.attributes.stations.length + (room + 1) = timing.maxStations) :
    ∃ v : Scene, v.Lists s.ledger.results timing.maxStations ∧
      s.attributes.Retains v.attributes ∧
      Course timing Scanning ((room + 1) * (2 * s.chip.searchPolls + 7)) s v := by
  -- By induction on the room that is left: a turn of the loop ends the scan or takes a place.
  induction room generalizing s next with
  | zero =>
      obtain ⟨found, hyields, hfound⟩ := h.yields
      cases found with
      | none =>
          have hlength : s.attributes.stations.length ≤ timing.maxStations := by omega
          obtain ⟨v, hlists, hkept, hcourse⟩ := h.course_missed hyields hlength timing
          exact ⟨v, hlists, hkept, hcourse.le (by omega)⟩
      | some f =>
          have hfull : timing.maxStations ≤ s.attributes.stations.length + 1 := by omega
          have hplace : s.attributes.stations.length < timing.maxStations := by omega
          obtain ⟨v, hlists, hkept, hcourse⟩ :=
            h.course_last hyields (hfound f rfl) hplace (.inl hfull)
          exact ⟨v, hlists, hkept, hcourse.le (by omega)⟩
  | succ room ih =>
      have hplace : s.attributes.stations.length + 1 < timing.maxStations := by omega
      obtain ⟨found, hyields, hfound⟩ := h.yields
      cases found with
      | none =>
          have hlength : s.attributes.stations.length ≤ timing.maxStations := by omega
          obtain ⟨v, hlists, hkept, hcourse⟩ := h.course_missed hyields hlength timing
          exact ⟨v, hlists, hkept, hcourse.le (by rw [Nat.succ_mul (room + 1)]; omega)⟩
      | some f =>
          by_cases htop : s.attributes.band.max.khz < f.khz + s.attributes.band.spacing
          · obtain ⟨v, hlists, hkept, hcourse⟩ :=
              h.course_last hyields (hfound f rfl) (Nat.lt_of_succ_lt hplace) (.inr htop)
            exact ⟨v, hlists, hkept, hcourse.le (by rw [Nat.succ_mul (room + 1)]; omega)⟩
          · obtain ⟨v, hclimbs, hresults, hkept, hlength, hpolls, hcourse⟩ :=
              h.course_next hyields (hfound f rfl) hplace (Nat.le_of_not_lt htop)
            obtain ⟨w, hlists, hlast, hlater⟩ := ih hclimbs (by omega)
            rw [hresults] at hlists
            rw [hpolls] at hlater
            refine ⟨w, hlists, hkept.trans hlast, (hcourse.trans hlater).le ?_⟩
            rw [Nat.succ_mul (room + 1), Nat.add_comm]

end Climbs

/-- A request for a full scan leads to a search from the bottom of the band, and from there to the
end of the scan. -/
theorem course_fullScan (hstate : s.state = .started ∨ s.state = .paused)
    (hpowered : s.chip.powered = true) (hband : s.attributes.band ∈ Band.presets)
    (hgrid : s.attributes.OnGrid) (hroom : 0 < timing.maxStations) (id : Option RequestId) :
    ∃ u v w : Scene, s.Begins timing { id, operation := .fullScan } u ∧
      v.Climbs s.attributes.band.min ∧ v.ledger = s.closed { id, operation := .fullScan } [] ∧
      w.Lists s.ledger.results timing.maxStations ∧ s.attributes.Retains w.attributes ∧
      Course timing (Carries s.state { id, operation := .fullScan }) 3 u v ∧
      Course timing Scanning (timing.maxStations * (2 * s.chip.searchPolls + 7)) v w := by
  let r : Request := { id, operation := .fullScan }
  have hroute : route s.state r.operation = .accept .scanning := by
    rcases hstate with h | h <;> rw [h] <;> rfl
  have hplan : Plan.build timing r.operation s.attributes s.scanMode =
      .ok (some (.ofCommands .fullScan
        (.writeFrequency s.attributes.band.min :: Plan.searchCommands true s.attributes.threshold)
          .fullScanStarted)) := rfl
  obtain ⟨u, v, hbegins, hclimbs, hledger, hattributes, hpolls, hcourse⟩ :=
    course_climb (b := { s.attributes with stations := [] }) hroute hplan rfl (fun _ ↦ rfl) hpowered
      hband (Band.isValid_min_of_preset hband) hgrid ⟨.nil, by simp⟩ (by simp)
  obtain ⟨room, hcapacity⟩ := Nat.exists_eq_add_of_lt hroom
  rw [Nat.zero_add] at hcapacity
  have hempty : v.attributes.stations.length + (room + 1) = timing.maxStations := by
    rw [hattributes, hcapacity]
    exact Nat.zero_add _
  obtain ⟨w, hlists, hkept, hlater⟩ := hclimbs.course hempty
  have hresults : v.ledger.results = s.ledger.results := by
    rw [hledger]
    simp [closed]
  rw [hresults] at hlists
  have hstart : s.attributes.Retains v.attributes := by
    rw [hattributes]
    exact ⟨rfl, rfl, rfl, fun h ↦ h⟩
  rw [hpolls, ← hcapacity] at hlater
  exact ⟨u, v, w, hbegins, hclimbs, hledger, hlists, hstart.trans hkept, hcourse, hlater⟩

end Scene

/-! ## Circuits -/

/-- A circuit that rests after a full scan, which has reported an ascending list of channels once.
`reported` are the results from before the scan. -/
structure Circuit.Listed (c : Circuit) (history : Journal) (reported : List Notification)
    (band : Band) (capacity : Nat) : Prop where
  state : c.receiver.radio.state = .started
  pending : c.receiver.radio.pending = none
  queue : c.receiver.radio.queue = []
  quiet : ∀ event, ¬ c.Live history event
  result : ∃ frequencies signals,
    history.results = reported ++ [.fullScanResult frequencies signals false] ∧
      frequencies.Pairwise (·.khz < ·.khz) ∧ (∀ f ∈ frequencies, band.isValid f = true) ∧
      frequencies.length ≤ capacity ∧ signals.length = frequencies.length

theorem Circuit.listed_of_shown {timing : Timing} {settings : ChipSettings} {history : Journal}
    {c : Circuit} {s : Scene} {reported : List Notification} {capacity : Nat}
    (hlists : s.Lists reported capacity) (h : s.Shown timing settings history c) :
    c.Listed history reported s.attributes.band capacity := by
  obtain ⟨hstate, -, hflight, hresults, ⟨hordered, hchannels⟩, hlength⟩ := hlists
  refine ⟨h.radio.state.trans hstate, h.radio.pending_none hflight, h.queue,
    h.quiet hflight (by simp [hstate]), _, _, (congrArg Ledger.results h.ledger).trans hresults,
    List.pairwise_map.mpr hordered, ?_, ?_, ?_⟩
  · intro f hf
    obtain ⟨t, ht, rfl⟩ := List.mem_map.mp hf
    exact hchannels t ht
  · rwa [List.length_map]
  · rw [List.length_map, List.length_map]

/-- Whatever transmitters there are, a full scan comes to an end, and is reported once: the channels
found, from the bottom of the band upwards, each with a signal, and no more of them than there is
room for. -/
theorem full_scan_ends_with_ascending_channels {timing : Timing} {settings : ChipSettings}
    {events : List Event} {history : Journal} {c : Circuit}
    (h : Circuit.Reaches timing settings events history c)
    (hpending : c.receiver.radio.pending = none) (hqueue : c.receiver.radio.queue = [])
    (hstate : c.receiver.radio.state = .started ∨ c.receiver.radio.state = .paused)
    (hband : c.receiver.radio.attributes.band ∈ Band.presets) (hroom : 1 ≤ timing.maxStations)
    (id : Option RequestId) :
    ∃ d journal, c.step (.request ⟨id, .fullScan⟩) = .ok (d, journal) ∧
      Circuit.Arrives
        (fun later e ↦ e.Listed later history.results c.receiver.radio.attributes.band
          timing.maxStations)
        (3 + timing.maxStations * (2 * settings.searchPolls + 7)) (history ++ journal) d := by
  have hon : c.receiver.radio.state.isOn = true := by
    rcases hstate with hstate | hstate <;> rw [hstate] <;> rfl
  have hfine : c.receiver.radio.state ≠ .error := by
    rcases hstate with hstate | hstate <;> simp [hstate]
  have hpowered : c.receiver.chip.powered = true :=
    congrArg Setup.powered (h.mirrors hpending hon)
  obtain ⟨u, v, w, hbegins, -, -, hlists, hkept, hcourse, hlater⟩ :=
    Scene.course_fullScan (s := c.scene history) hstate hpowered hband h.onGrid hroom id
  obtain ⟨d, journal, hstep, hu⟩ := (h.shown hpending hqueue hfine).request rfl hbegins
  have hleads := (hcourse.leads settings).trans (hlater.leads settings)
  have hpolls : (c.scene history).chip.searchPolls = settings.searchPolls := h.stations.2
  rw [hpolls] at hleads
  refine ⟨d, journal, hstep, (hleads _ _ hu).mono fun later e he ↦ ?_⟩
  have hlisted := Circuit.listed_of_shown hlists he
  rw [hkept.band] at hlisted
  exact hlisted

/-- Two transmitters that share a frequency between two channels, and one out of everyone's reach. -/
def strayedStations : ChipSettings where
  stations := [⟨88130, 70, true⟩, ⟨120000, 90, false⟩, ⟨88130, 65, false⟩]

theorem full_scan_over_strayed_stations_ends :
    ∃ events history c d journal, Circuit.Reaches {} strayedStations events history c ∧
      c.step (.request ⟨some 7, .fullScan⟩) = .ok (d, journal) ∧
        Circuit.Arrives (fun later e ↦ e.Listed later history.results .europeUs 50) 453
          (history ++ journal) d := by
  have hstart : Circuit.Reaches {} strayedStations [] [] (.start {} strayedStations) := .start
  obtain ⟨⟨c, journal⟩, hrun, hpending, hqueue, hstate, hattributes⟩ :
      ∃ x, (Circuit.start {} strayedStations).run
          ([.ready, .request ⟨none, .start .europeUs⟩] ++ startAnswers) = some x ∧
        x.1.receiver.radio.pending = none ∧ x.1.receiver.radio.queue = [] ∧
          x.1.receiver.radio.state = .started ∧ x.1.receiver.radio.attributes = {} := by
    refine ⟨_, rfl, ?_⟩
    decide
  have h := hstart.run hrun
  obtain ⟨d, later, hstep, harrives⟩ := full_scan_ends_with_ascending_channels h hpending hqueue
    (.inl hstate) (by rw [hattributes]; decide) (by decide) (some 7)
  rw [hattributes] at harrives
  exact ⟨_, _, c, d, later, h, hstep, harrives⟩

end FmTuner
