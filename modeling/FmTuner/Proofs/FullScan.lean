import FmTuner.Proofs.Courses
import FmTuner.Proofs.Reception

/-!
# Full scans

A full scan is a loop: it searches from a frequency, polls the chip until the search is over, reads
the station on which it has stopped and goes on from the channel above. At each turn of the loop the
stations that can be heard are those met so far and those still ahead, and the next search stops on
the first one ahead. Hence the scan reports the stations from the bottom of the band upwards, until
there are no more of them or no room for more.
-/

namespace FmTuner

/-! ## One turn of the loop -/

/-- The attributes after a poll of a full scan that has met a station. -/
def Attributes.meet (a : Attributes) (t : Transmitter) (stereo : Bool) : Attributes :=
  { a with
    frequency := some t.freq
    signalStrength := some t.rssi
    stereo
    stations := a.stations ++ [t.station] }

namespace Chip

variable {c : Chip} {t : Transmitter}

/-- A poll of a full scan adds a station, and goes on while there is room for another one and a
channel above. -/
theorem poll_full {a : Attributes} {f : Freq} (hrange : a.band.InRange)
    (hvalid : a.band.isValid f = true) (capacity : Nat) :
    (c.readings f).poll .full capacity a =
      .ok ({ (c.readings f).tune a with stations := a.stations ++ [⟨f, c.rssiAt c.tuned⟩] },
        if capacity ≤ a.stations.length + 1 ∨ a.band.max.khz < f.khz + a.band.spacing then
          .scanDone .full false
        else .scanStep) := by
  have hstation : (c.readings f).station .full = some ⟨f, c.rssiAt c.tuned⟩ := rfl
  have habove := Band.nextChannel_of_isValid hrange hvalid
  simp only [Readings.poll, hstation, habove, bind, Except.bind, List.length_append,
    List.length_singleton, ite_eq_right_iff, reduceCtorEq, imp_false, not_le]

theorem poll_readings {a : Attributes} (htuned : c.tuned = t.freq)
    (hlevel : c.rssiAt t.freq = t.rssi) (hrange : a.band.InRange)
    (hvalid : a.band.isValid t.freq = true) (capacity : Nat) :
    (c.readings t.freq).poll .full capacity a =
      .ok (a.meet t (c.stereoAt t.freq),
        if capacity ≤ a.stations.length + 1 ∨ a.band.max.khz < t.khz + a.band.spacing then
          .scanDone .full false
        else .scanStep) := by
  have hmeet : { (c.readings t.freq).tune a with
      stations := a.stations ++ [⟨t.freq, c.rssiAt c.tuned⟩] } =
        a.meet t (c.stereoAt t.freq) := by
    simp [readings, Readings.tune, Attributes.meet, Transmitter.station, htuned, hlevel]
  rw [poll_full hrange hvalid, hmeet]
  rfl

theorem Receives.find_ahead {b : Band} {threshold : Nat} {met ahead : List Transmitter}
    (h : c.Receives b threshold (met ++ ahead)) {f : Freq} (hf : b.isValid f = true)
    (hmet : ∀ s ∈ met, s.khz < f.khz) (hahead : ∀ s ∈ ahead, f.khz ≤ s.khz) :
    (c.upwards threshold f).find? c.stations = ahead.head? := by
  have hpassed : met.find? (f.khz ≤ ·.khz) = none :=
    List.find?_eq_none.mpr fun s hs ↦ by simpa using hmet s hs
  rw [h.search f hf, List.find?_append, hpassed, Option.none_or]
  cases ahead with
  | nil => rfl
  | cons s rest => exact List.find?_cons_of_pos (by simpa using hahead s List.mem_cons_self)

end Chip

namespace Scene

variable {timing : Timing} {s : Scene} {before : Option Freq} {met ahead : List Transmitter}
  {t : Transmitter}

/-- A full scan that waits for a search to end, with the stations that it has met and those that
are still ahead. -/
structure Seeks (s : Scene) (before : Option Freq) (met ahead : List Transmitter) : Prop where
  inScan : s.InScan .full
  receives : s.chip.Receives s.attributes.band s.attributes.threshold (met ++ ahead)
  busy : s.chip.busyReads ≤ s.chip.searchPolls
  found : ∀ t ∈ ahead.head?, s.chip.tuned = t.freq ∧
    s.chip.flags = Register.finishedFlag ||| s.chip.stereoFlagAt t.freq
  missed : ahead = [] → s.chip.flags = Register.finishedFlag ||| Register.failedFlag
  stations : s.attributes.stations = met.map Transmitter.station
  frequency : s.attributes.frequency = (met.getLast?.map Transmitter.freq).or before

/-- A full scan that is over and has reported what it found. -/
structure Reports (s : Scene) (old : List Notification) (before : Option Freq)
    (found : List Transmitter) : Prop where
  state : s.state = .started
  flight : s.flight = none
  results : s.ledger.results =
    old ++ [.fullScanResult (found.map Transmitter.freq) (found.map Transmitter.rssi) false]
  stations : s.attributes.stations = found.map Transmitter.station
  frequency : s.attributes.frequency = (found.getLast?.map Transmitter.freq).or before
  tuned : ∀ f, s.attributes.frequency = some f → s.chip.tuned = f

theorem course_reported (hstate : s.state = .scanning) (hpowered : s.chip.powered = true)
    (hknown : ∀ f, s.attributes.frequency = some f → f.InRegister)
    (hstations : s.attributes.stations = met.map Transmitter.station)
    (hfrequency : s.attributes.frequency = (met.getLast?.map Transmitter.freq).or before)
    (timing : Timing) :
    ∃ u, ∃ v : Scene, s.Begins timing { id := none, operation := .scanDone .full false } u ∧
      v.Reports s.ledger.results before met ∧ Course timing Scanning 2 u v := by
  obtain ⟨u, d, hbegins, -, htuned, hcourse⟩ :=
    course_done hstate hpowered hknown .full false timing
  refine ⟨u, _, hbegins, ?_, hcourse⟩
  refine ⟨rfl, rfl, ?_, hstations, hfrequency, htuned⟩
  simp only [scanned, closed, Ledger.append_results, Plan.scanNotice, hstations, List.map_map]
  rfl

/-- A request of a full scan that searches from a frequency, with the stations that can be heard
parted there. -/
theorem course_seek {r : Request} {hook : Hook} {f : Freq}
    (hroute : route s.state r.operation = .accept .scanning)
    (hplan : Plan.build timing r.operation s.attributes s.scanMode =
      .ok (some (.ofCommands r.operation
        (.writeFrequency f :: Plan.searchCommands true s.attributes.threshold) hook)))
    (hmode : r.operation.scanMode.or s.scanMode = some .full) {b : Attributes}
    (hhook : ∀ commands, hook.apply .done commands s.attributes = .ok (b, []))
    (hreceives : s.chip.Receives b.band b.threshold (met ++ ahead))
    (hkept : b.threshold = s.attributes.threshold) (hband : b.band ∈ Band.presets)
    (hf : b.band.isValid f = true) (hmet : ∀ s ∈ met, s.khz < f.khz)
    (hahead : ∀ s ∈ ahead, f.khz ≤ s.khz) (hstations : b.stations = met.map Transmitter.station)
    (hfrequency : b.frequency = (met.getLast?.map Transmitter.freq).or before) :
    ∃ u, ∃ v : Scene, s.Begins timing r u ∧ v.Seeks before met ahead ∧
      v.ledger.results = s.ledger.results ∧ v.attributes = b ∧
      v.chip.searchPolls = s.chip.searchPolls ∧ Course timing (Carries s.state r) 3 u v := by
  obtain ⟨d, hobeys, hsearched⟩ := Chip.obeys_search_from hreceives.powered
    (Band.inRegister_of_preset hband hf) s.attributes.threshold
  obtain ⟨u, hbegins, hcourse⟩ := course_search hroute hplan hmode hhook hobeys
  -- The stations met lie below the start of the search, so it stops on the first one ahead.
  have hfind := hreceives.find_ahead hf hmet hahead
  rw [hkept] at hfind
  have hsame := hsearched.same
  have hreceives' := hreceives.same hsame
  have hseeks : (s.searching r .full b d).Seeks before met ahead := by
    refine ⟨⟨rfl, rfl, rfl, hreceives'.powered⟩, hreceives', ?_, fun t ht ↦ ?_, fun hnone ↦ ?_,
      hstations, hfrequency⟩
    · exact Nat.le_of_eq (hsearched.busyReads.trans hsame.searchPolls.symm)
    · obtain ⟨htuned, -⟩ := hsearched.found t (hfind.trans ht)
      have hflags := hsearched.flags_of_found (hfind.trans ht)
      rw [htuned] at hflags
      exact ⟨htuned, hflags⟩
    · exact (hsearched.missed (hfind.trans (by rw [hnone]; rfl))).2
  refine ⟨u, _, hbegins, hseeks, ?_, rfl, hsame.searchPolls, hcourse⟩
  simp [searching, closed]

/-- The scene in which the station that the search has stopped on was read. -/
def visited (s : Scene) (t : Transmitter) : Scene :=
  (s.waited .full).polled .full .done (s.waited .full).chip
    (s.attributes.meet t (s.chip.stereoAt t.freq))

namespace Seeks

theorem inRegister (h : s.Seeks before met ahead) (hband : s.attributes.band ∈ Band.presets)
    (hbefore : ∀ f, before = some f → f.InRegister) :
    ∀ f, s.attributes.frequency = some f → f.InRegister := by
  intro f hf
  rw [h.frequency] at hf
  cases hlast : met.getLast? with
  | none => exact hbefore f (by simpa [hlast] using hf)
  | some t =>
      have hmem : t ∈ met ++ ahead := List.mem_append_left _ (List.mem_of_getLast? hlast)
      have hfreq : t.freq = f := by simpa [hlast] using hf
      exact hfreq ▸ Band.inRegister_of_preset hband (h.receives.valid t hmem)

/-- The channel above the next station parts the stations. -/
theorem parted {rest : List Transmitter} (h : s.Seeks before met (t :: rest)) :
    (∀ r ∈ met ++ [t], r.khz < t.khz + s.attributes.band.spacing) ∧
      ∀ r ∈ rest, t.khz + s.attributes.band.spacing ≤ r.khz := by
  have hvalid := h.receives.valid t (by simp)
  have hspacing : 0 < s.attributes.band.spacing := (Band.isValid_iff.mp hvalid).2.2.1
  have hsorted := h.receives.sorted
  rw [List.pairwise_append, List.pairwise_cons] at hsorted
  obtain ⟨-, ⟨hbelow, -⟩, hmet⟩ := hsorted
  refine ⟨fun r hr ↦ ?_, fun r hr ↦ ?_⟩
  · have hle : r.khz ≤ t.khz := by
      rcases List.mem_append.mp hr with hr | hr
      · exact (hmet r hr t List.mem_cons_self).le
      · exact (congrArg Transmitter.khz (List.mem_singleton.mp hr)).le
    exact Nat.lt_of_le_of_lt hle (Nat.lt_add_of_pos_right hspacing)
  · exact Band.spacing_le_of_lt hvalid (h.receives.valid r (by simp [hr])) (hbelow r hr)

theorem ahead_nil {rest : List Transmitter} (h : s.Seeks before met (t :: rest))
    (htop : s.attributes.band.max.khz < t.khz + s.attributes.band.spacing) : rest = [] := by
  refine List.eq_nil_iff_forall_not_mem.mpr fun r hr ↦ ?_
  have hle := h.parted.2 r hr
  have hmax : r.khz ≤ s.attributes.band.max.khz :=
    (Band.isValid_iff.mp (h.receives.valid r (by simp [hr]))).2.1
  omega

/-- After the wait for the search, the scan is where it was. -/
theorem waited (h : s.Seeks before met ahead) : (s.waited .full).Seeks before met ahead := by
  obtain ⟨hinScan, hreceives, -, hfound, hmissed, hstations, hfrequency⟩ := h
  exact ⟨hinScan.waited, hreceives.same ⟨rfl, rfl, rfl, rfl⟩, Nat.zero_le _, hfound, hmissed,
    hstations, hfrequency⟩

theorem recorded {rest : List Transmitter} (h : s.Seeks before met (t :: rest)) :
    (s.visited t).attributes.stations = (met ++ [t]).map Transmitter.station ∧
      (s.visited t).attributes.frequency =
        ((met ++ [t]).getLast?.map Transmitter.freq).or before := by
  simp [visited, polled, Attributes.meet, h.stations]

theorem results_visited (s : Scene) (t : Transmitter) :
    (s.visited t).ledger.results = s.ledger.results := by
  simp [visited, polled, Scene.waited]

section

variable (hband : s.attributes.band ∈ Band.presets)

include hband

theorem yields {rest : List Transmitter} (h : s.Seeks before met (t :: rest)) :
    s.chip.Yields s.attributes.band (some t.freq) := by
  have hvalid := h.receives.valid t (by simp)
  obtain ⟨htuned, hflags⟩ := h.found t rfl
  rw [← htuned] at hflags hvalid ⊢
  exact .found hflags (Band.inRegister_of_preset hband hvalid)
    (Band.snap_of_isValid (Band.inRange_of_preset hband) hvalid)

theorem course_missed (h : s.Seeks before met [])
    (hbefore : ∀ f, before = some f → f.InRegister) (timing : Timing) :
    ∃ v : Scene, v.Reports s.ledger.results before met ∧
      Course timing Scanning (2 * s.chip.searchPolls + 5) s v := by
  have hwaited := h.waited
  let w := (s.waited .full).polled .full .fail (s.waited .full).chip (s.waited .full).attributes
  obtain ⟨u, v, hbegins, hreports, hcourse⟩ := course_reported (s := w) hwaited.inScan.state
    hwaited.inScan.powered (hwaited.inRegister hband hbefore) hwaited.stations hwaited.frequency
    timing
  have hfailed := hwaited.inScan.course_failed rfl (.missed (hwaited.missed rfl)) hbegins
  have hresults : w.ledger.results = s.ledger.results := by simp [w, polled, Scene.waited]
  rw [hresults] at hreports
  exact ⟨v, hreports, h.inScan.course_after h.busy (hfailed.trans hcourse)⟩

/-- With a station ahead, the scan reads it and goes on. -/
theorem course_polled {rest : List Transmitter} (h : s.Seeks before met (t :: rest)) {v : Scene}
    (hbegins : (s.visited t).Begins timing
      { id := none
        operation :=
          if timing.maxStations ≤ met.length + 1 ∨
              s.attributes.band.max.khz < t.khz + s.attributes.band.spacing then
            .scanDone .full false
          else .scanStep } v) :
    Course timing Scanning (2 * s.chip.searchPolls + 4) s v := by
  have hwaited := h.waited
  have hmem : t ∈ met ++ t :: rest := by simp
  have hpoll := Chip.poll_readings (hwaited.found t rfl).1 (hwaited.receives.level t hmem)
    (Band.inRange_of_preset hband) (h.receives.valid t hmem) timing.maxStations
  rw [h.stations, List.length_map] at hpoll
  exact h.inScan.course_after h.busy
    (hwaited.inScan.course_found rfl (hwaited.yields hband) hpoll hbegins)

/-- With no room for another station, or no channel above, the scan ends with the station. -/
theorem course_last {rest : List Transmitter} (h : s.Seeks before met (t :: rest))
    (hlast : timing.maxStations ≤ met.length + 1 ∨
      s.attributes.band.max.khz < t.khz + s.attributes.band.spacing) :
    ∃ v : Scene, v.Reports s.ledger.results before (met ++ [t]) ∧
      Course timing Scanning (2 * s.chip.searchPolls + 6) s v := by
  have hvalid := h.receives.valid t (by simp)
  have hknown : ∀ f, (s.visited t).attributes.frequency = some f → f.InRegister := by
    intro f hf
    cases hf
    exact Band.inRegister_of_preset hband hvalid
  obtain ⟨hstations, hfrequency⟩ := h.recorded
  obtain ⟨u, v, hbegins, hreports, hcourse⟩ := course_reported (s := s.visited t) h.inScan.state
    h.inScan.powered hknown hstations hfrequency timing
  rw [results_visited] at hreports
  refine ⟨v, hreports, (h.course_polled hband ?_).trans hcourse⟩
  rw [if_pos hlast]
  exact hbegins

/-- With room for another station and a channel above, the scan searches from there. -/
theorem course_next {rest : List Transmitter} (h : s.Seeks before met (t :: rest))
    (hroom : met.length + 1 < timing.maxStations)
    (habove : t.khz + s.attributes.band.spacing ≤ s.attributes.band.max.khz) :
    ∃ v : Scene, v.Seeks before (met ++ [t]) rest ∧ v.ledger.results = s.ledger.results ∧
      v.attributes.band = s.attributes.band ∧ v.chip.searchPolls = s.chip.searchPolls ∧
      Course timing Scanning (2 * s.chip.searchPolls + 7) s v := by
  have hvalid := h.receives.valid t (by simp)
  have hrange := Band.inRange_of_preset hband
  have hstate : (s.visited t).state = .scanning := h.inScan.state
  let next : Freq := ⟨t.khz + s.attributes.band.spacing⟩
  let r : Request := { id := none, operation := .scanStep }
  have hroute : route (s.visited t).state r.operation = .accept .scanning := by
    rw [hstate]
    rfl
  have hplan : Plan.build timing r.operation (s.visited t).attributes (s.visited t).scanMode =
      .ok (some (.ofCommands .scanStep
        (.writeFrequency next :: Plan.searchCommands true s.attributes.threshold) .none)) := by
    have hnext : s.attributes.band.nextChannel t.freq = .ok (some next) :=
      (Band.nextChannel_of_isValid hrange hvalid).trans (congrArg Except.ok (if_pos habove))
    simp only [r, Plan.build, visited, polled, Attributes.meet, Option.getD_some, hnext, bind,
      Except.bind]
  have hreceives := h.waited.receives
  rw [List.append_cons] at hreceives
  obtain ⟨hbehind, hahead⟩ := h.parted
  obtain ⟨hstations, hfrequency⟩ := h.recorded
  obtain ⟨u, v, hbegins, hseeks, hresults, hattributes, hpolls, hcourse⟩ :=
    course_seek (s := s.visited t) hroute hplan h.inScan.scanMode (fun _ ↦ rfl) hreceives rfl hband
      (Band.isValid_next hvalid habove) hbehind hahead hstations hfrequency
  rw [results_visited] at hresults
  rw [hstate] at hcourse
  refine ⟨v, hseeks, hresults, ?_, hpolls,
    (h.course_polled hband ?_).trans (hcourse.mono fun _ hv ↦ hv.scanning)⟩
  · rw [hattributes]
    rfl
  · rw [if_neg (by omega)]
    exact hbegins

end

/-! ## The loop -/

/-- A full scan reports the stations from the bottom of the band upwards, as far as there is room
for them. -/
theorem course (h : s.Seeks before met ahead) (hband : s.attributes.band ∈ Band.presets)
    (hbefore : ∀ f, before = some f → f.InRegister) {room : Nat}
    (hroom : met.length + (room + 1) = timing.maxStations) :
    ∃ v : Scene, v.Reports s.ledger.results before (met ++ ahead.take (room + 1)) ∧
      Course timing Scanning ((room + 1) * (2 * s.chip.searchPolls + 7)) s v := by
  -- By induction on the stations ahead: a turn of the loop takes the first of them and its place.
  induction ahead generalizing s met room with
  | nil =>
      obtain ⟨v, hreports, hcourse⟩ := h.course_missed hband hbefore timing
      refine ⟨v, ?_, hcourse.le ?_⟩
      · rw [List.take_nil, List.append_nil]
        exact hreports
      · rw [Nat.succ_mul room]
        omega
  | cons t rest ih =>
      rw [List.take_succ_cons, List.append_cons, Nat.succ_mul]
      by_cases hlast : timing.maxStations ≤ met.length + 1 ∨
          s.attributes.band.max.khz < t.khz + s.attributes.band.spacing
      · obtain ⟨v, hreports, hcourse⟩ := h.course_last hband hlast
        refine ⟨v, ?_, hcourse.le (by omega)⟩
        -- What ends the scan also ends the list that is to be reported.
        have hend : rest.take room = [] := by
          rcases hlast with hfull | htop
          · rw [show room = 0 by omega, List.take_zero]
          · rw [h.ahead_nil htop, List.take_nil]
        rw [hend, List.append_nil]
        exact hreports
      · rw [not_or, Nat.not_le, Nat.not_lt] at hlast
        obtain ⟨v, hseeks, hresults, hsame, hpolls, hcourse⟩ := h.course_next hband hlast.1 hlast.2
        obtain ⟨more, rfl⟩ := Nat.exists_eq_succ_of_ne_zero (n := room) (by omega)
        have hless : (met ++ [t]).length + (more + 1) = timing.maxStations := by
          rw [List.length_append, List.length_singleton]
          omega
        obtain ⟨w, hreports, hlater⟩ := ih hseeks (by rw [hsame]; exact hband) hless
        rw [hresults] at hreports
        rw [hpolls] at hlater
        exact ⟨w, hreports, (hcourse.trans hlater).le (Nat.add_comm ..).le⟩

end Seeks

theorem leads_fullScan {stations : List Transmitter} {id : Option RequestId}
    (hstate : s.state = .started ∨ s.state = .paused)
    (hreceives : s.chip.Receives s.attributes.band s.attributes.threshold stations)
    (hband : s.attributes.band ∈ Band.presets) (hgrid : s.attributes.OnGrid)
    (hroom : 0 < timing.maxStations) (settings : ChipSettings) :
    ∃ u, ∃ v : Scene, s.Begins timing { id, operation := .fullScan } u ∧
      v.Reports s.ledger.results s.attributes.frequency (stations.take timing.maxStations) ∧
      Circuit.Leads (3 + timing.maxStations * (2 * s.chip.searchPolls + 7))
        (u.Shown timing settings) (v.Shown timing settings) := by
  let r : Request := { id, operation := .fullScan }
  have hroute : route s.state r.operation = .accept .scanning := by
    rcases hstate with h | h <;> rw [h] <;> rfl
  have hmin := Band.isValid_min_of_preset hband
  have hahead : ∀ r ∈ stations, s.attributes.band.min.khz ≤ r.khz := fun r hr ↦
    (Band.isValid_iff.mp (hreceives.valid r hr)).1
  rw [← List.nil_append stations] at hreceives
  have hplan : Plan.build timing r.operation s.attributes s.scanMode =
      .ok (some (.ofCommands .fullScan
        (.writeFrequency s.attributes.band.min :: Plan.searchCommands true s.attributes.threshold)
          .fullScanStarted)) := rfl
  have hfrequency : s.attributes.frequency =
      (([] : List Transmitter).getLast?.map Transmitter.freq).or s.attributes.frequency := rfl
  obtain ⟨u, v, hbegins, hseeks, hresults, hattributes, hpolls, hcourse⟩ :=
    course_seek (b := { s.attributes with stations := [] }) hroute hplan rfl (fun _ ↦ rfl) hreceives
      rfl hband hmin (List.forall_mem_nil _) hahead rfl hfrequency
  obtain ⟨room, hcapacity⟩ := Nat.exists_eq_add_of_lt hroom
  rw [Nat.zero_add] at hcapacity
  have hbefore : ∀ f, s.attributes.frequency = some f → f.InRegister := fun f hf ↦
    Band.inRegister_of_preset hband (hgrid f hf)
  have hempty : ([] : List Transmitter).length + (room + 1) = timing.maxStations := by
    rw [hcapacity, List.length_nil, Nat.zero_add]
  obtain ⟨w, hreports, hlater⟩ :=
    hseeks.course (by rw [hattributes]; exact hband) hbefore hempty
  rw [hresults, List.nil_append, ← hcapacity] at hreports
  rw [hpolls, ← hcapacity] at hlater
  exact ⟨u, w, hbegins, hreports, (hcourse.leads settings).trans (hlater.leads settings)⟩

end Scene

/-! ## Circuits -/

namespace Circuit

/-- What there is to see of a circuit that rests. -/
def scene (c : Circuit) (history : Journal) : Scene where
  state := c.receiver.radio.state
  scanMode := c.receiver.radio.scanMode
  attributes := c.receiver.radio.attributes
  chip := c.receiver.chip
  ledger := history.ledger
  flight := none

/-- A circuit that rests after a full scan, which has reported the stations found. `reported` are
the results from before the scan, and `before` is the frequency known then. -/
structure Surveyed (c : Circuit) (history : Journal) (reported : List Notification)
    (before : Option Freq) (found : List Transmitter) : Prop where
  state : c.receiver.radio.state = .started
  pending : c.receiver.radio.pending = none
  queue : c.receiver.radio.queue = []
  quiet : ∀ event, ¬ c.Live history event
  results : history.results = reported ++
    [.fullScanResult (found.map Transmitter.freq) (found.map Transmitter.rssi) false]
  stations : c.receiver.radio.attributes.stations = found.map Transmitter.station
  frequency : c.receiver.radio.attributes.frequency =
    (found.getLast?.map Transmitter.freq).or before
  tuned : ∀ f, c.receiver.radio.attributes.frequency = some f → c.receiver.chip.tuned = f

variable {timing : Timing} {settings : ChipSettings} {events : List Event} {history : Journal}
  {c : Circuit}

theorem Reaches.shown (h : Reaches timing settings events history c)
    (hpending : c.receiver.radio.pending = none) (hqueue : c.receiver.radio.queue = [])
    (hstate : c.receiver.radio.state ≠ .error) :
    (c.scene history).Shown timing settings history c := by
  refine ⟨⟨events, h⟩, hqueue, ⟨h.radio_timing, rfl, rfl, rfl, ?_⟩, rfl, ?_, rfl⟩
  · simp [hpending, scene]
  · rcases h.sound_or_failed with hsound | hfailed
    · cases hsound with
      | waiting hsome => simp [hpending] at hsome
      | resting _ hinFlight => exact hinFlight
    · exact (hstate hfailed.state).elim

theorem Reaches.receives (h : Reaches timing settings events history c)
    (hpending : c.receiver.radio.pending = none) (hon : c.receiver.radio.state.isOn = true)
    (hband : c.receiver.radio.attributes.band ∈ Band.presets)
    (hdistinct : (settings.stations.map Transmitter.khz).Nodup)
    (hchannels : ∀ s ∈ settings.stations, c.receiver.chip.band.min.khz ≤ s.khz →
      s.khz ≤ c.receiver.chip.band.max.khz →
      c.receiver.radio.attributes.band.isValid s.freq = true) :
    c.receiver.chip.Receives c.receiver.radio.attributes.band
      c.receiver.radio.attributes.threshold
      (settings.receivable c.receiver.radio.attributes) :=
  Chip.receives_of_setup h.stations.1 (h.mirrors hpending hon) hband hdistinct hchannels

theorem surveyed_of_shown {s : Scene} {before : Option Freq} {reported : List Notification}
    {found : List Transmitter} (hreports : s.Reports reported before found)
    (h : s.Shown timing settings history c) : c.Surveyed history reported before found := by
  obtain ⟨hstate, hflight, hresults, hstations, hfrequency, htuned⟩ := hreports
  refine ⟨h.radio.state.trans hstate, h.radio.pending_none hflight, h.queue,
    h.quiet hflight (by simp [hstate]), (congrArg Ledger.results h.ledger).trans hresults, ?_, ?_,
    fun f hf ↦ ?_⟩
  · rw [h.radio.attributes, hstations]
  · rw [h.radio.attributes, hfrequency]
  · rw [h.radio.attributes] at hf
    rw [h.chip, htuned f hf]

end Circuit

/-- A full scan reports the stations that can be heard, from the bottom of the band upwards, as far
as there is room for them, and leaves the radio on the last one. -/
theorem full_scan_reports_stations_in_reach {timing : Timing} {settings : ChipSettings}
    {events : List Event} {history : Journal} {c : Circuit}
    (h : Circuit.Reaches timing settings events history c)
    (hpending : c.receiver.radio.pending = none) (hqueue : c.receiver.radio.queue = [])
    (hstate : c.receiver.radio.state = .started ∨ c.receiver.radio.state = .paused)
    (hband : c.receiver.radio.attributes.band ∈ Band.presets)
    (hdistinct : (settings.stations.map Transmitter.khz).Nodup)
    (hchannels : ∀ s ∈ settings.stations, c.receiver.chip.band.min.khz ≤ s.khz →
      s.khz ≤ c.receiver.chip.band.max.khz →
      c.receiver.radio.attributes.band.isValid s.freq = true)
    (hroom : 1 ≤ timing.maxStations) (id : Option RequestId) :
    ∃ d journal, c.step (.request ⟨id, .fullScan⟩) = .ok (d, journal) ∧
      Circuit.Arrives
        (fun later e ↦ e.Surveyed later history.results c.receiver.radio.attributes.frequency
          ((settings.receivable c.receiver.radio.attributes).take timing.maxStations))
        (3 + timing.maxStations * (2 * settings.searchPolls + 7)) (history ++ journal) d := by
  have hon : c.receiver.radio.state.isOn = true := by
    rcases hstate with hstate | hstate <;> rw [hstate] <;> rfl
  have hfine : c.receiver.radio.state ≠ .error := by
    rcases hstate with hstate | hstate <;> simp [hstate]
  have hshown := h.shown hpending hqueue hfine
  have hreceives := h.receives hpending hon hband hdistinct hchannels
  obtain ⟨u, v, hbegins, hreports, hleads⟩ :=
    Scene.leads_fullScan (s := c.scene history) hstate hreceives hband h.onGrid hroom settings
  obtain ⟨d, journal, hstep, hu⟩ :=
    hshown.request rfl (r := { id, operation := .fullScan }) hbegins
  refine ⟨d, journal, hstep, ?_⟩
  rw [← h.stations.2]
  exact (hleads _ _ hu).mono fun later e he ↦ Circuit.surveyed_of_shown hreports he

/-- Two stations that are strong enough for the threshold of a start, around a weak one. -/
def twoStrongStations : ChipSettings where
  stations := [⟨101100, 70, false⟩, ⟨88100, 65, true⟩, ⟨95800, 20, true⟩]

theorem full_scan_after_start_reports_two :
    ∃ events history c d journal, Circuit.Reaches {} twoStrongStations events history c ∧
      c.step (.request ⟨some 7, .fullScan⟩) = .ok (d, journal) ∧
        Circuit.Arrives
          (fun later e ↦ e.Surveyed later history.results none
            [⟨88100, 65, true⟩, ⟨101100, 70, false⟩]) 453 (history ++ journal) d := by
  have hstart : Circuit.Reaches {} twoStrongStations [] [] (.start {} twoStrongStations) := .start
  obtain ⟨⟨c, journal⟩, hrun, hpending, hqueue, hstate, hattributes, hregion⟩ :
      ∃ x, (Circuit.start {} twoStrongStations).run
          ([.ready, .request ⟨none, .start .europeUs⟩] ++ startAnswers) = some x ∧
        x.1.receiver.radio.pending = none ∧ x.1.receiver.radio.queue = [] ∧
          x.1.receiver.radio.state = .started ∧ x.1.receiver.radio.attributes = {} ∧
            x.1.receiver.chip.band = .europeUs := by
    refine ⟨_, rfl, ?_⟩
    decide
  have h := hstart.run hrun
  have hreceivable : twoStrongStations.receivable {} =
      [⟨88100, 65, true⟩, ⟨101100, 70, false⟩] := by
    simp [ChipSettings.receivable, twoStrongStations, List.mergeSort,
      List.MergeSort.Internal.splitInTwo, Attributes.hears, Band.europeUs, defaultThreshold]
  have hchannels : ∀ s ∈ twoStrongStations.stations, c.receiver.chip.band.min.khz ≤ s.khz →
      s.khz ≤ c.receiver.chip.band.max.khz →
      c.receiver.radio.attributes.band.isValid s.freq = true := by
    rw [hattributes, hregion]
    decide
  obtain ⟨d, later, hstep, harrives⟩ := full_scan_reports_stations_in_reach h hpending hqueue
    (.inl hstate) (by rw [hattributes]; decide) (by decide) hchannels (by decide) (some 7)
  rw [hattributes, hreceivable] at harrives
  exact ⟨_, _, c, d, later, h, hstep, harrives⟩

end FmTuner
