import FmTuner.Proofs.Deeds
import FmTuner.Proofs.Reception

/-!
# Landings

Where a search comes to rest. The past of the chip tells where the search begins, where it goes and
what it may stop on; of the transmitters on which it may stop it stops on a nearest one, and without
any it ends on the far limit of its band. Until the tuner is steered again or the power is lost, the
reads of the status find the search busy for a while, and then what it has come to.
-/

namespace FmTuner

/-! ## The search that the past asks for -/

namespace Deed

theorem eq_of_mode? {deed : Deed} {mode : UInt8} (h : deed.mode? = some mode) :
    ∃ value, deed = .write Register.searchTuneMode value ∧ value.toUInt8 = mode := by
  cases deed with
  | power | read => cases h
  | write address value =>
      by_cases haddress : address = Register.searchTuneMode
      · subst haddress
        exact ⟨value, rfl, Option.some.inj h⟩
      · rw [mode?, if_neg haddress] at h
        cases h

/-- It begins on the frequency that was written, and counts a station there, or else beyond the tuned
frequency. -/
def search (past : List Deed) (tuned : Freq) : Chip.Search where
  up := content Register.searchControl past &&& Register.upBit.toUInt16 ≠ 0
  level := (content Register.searchControl past &&& Register.levelMask.toUInt16).toUInt8
  start := if startGiven past then .ofRegister (content Register.frequency past) else tuned
  inclusive := startGiven past
  band := if content Register.fmControl past &&& 1 = 0 then .europeUs else .japan

end Deed

namespace Chip

theorem Serves.search {settings : ChipSettings} {past : List Deed} {c : Chip}
    (h : (ofSettings settings).Serves past c) : c.search = Deed.search past c.tuned := by
  rw [Chip.search, band, h.register, h.register, h.register, h.frequencyWritten, Deed.search]

/-! ## What a search stops on -/

namespace Search

/-- A search may stop on a transmitter that lies ahead, is strong enough and lies in the band. -/
structure Candidate (q : Search) (s : Transmitter) : Prop where
  up : q.up = true → q.start.khz ≤ s.khz
  down : q.up = false → s.khz ≤ q.start.khz
  beyond : q.inclusive = false → s.khz ≠ q.start.khz
  strong : q.level ≤ s.rssi
  min : q.band.min.khz ≤ s.khz
  max : s.khz ≤ q.band.max.khz

/-- No other candidate comes before this one. -/
structure StopsAt (q : Search) (stations : List Transmitter) (s : Transmitter) : Prop where
  mem : s ∈ stations
  candidate : q.Candidate s
  up : q.up = true → ∀ t ∈ stations, q.Candidate t → s.khz ≤ t.khz
  down : q.up = false → ∀ t ∈ stations, q.Candidate t → t.khz ≤ s.khz

variable {q : Search} {stations : List Transmitter} {s : Transmitter}

theorem ahead_iff :
    q.ahead s = true ↔ (q.up = true → q.start.khz ≤ s.khz) ∧
      (q.up = false → s.khz ≤ q.start.khz) ∧ (q.inclusive = false → s.khz ≠ q.start.khz) := by
  rw [ahead]
  cases q.up <;> cases q.inclusive <;> simp <;> omega

theorem stopsOn_iff : q.stopsOn s = true ↔ q.Candidate s := by
  rw [stopsOn_iff_ahead, ahead_iff]
  constructor
  · rintro ⟨⟨hup, hdown, hbeyond⟩, hstrong, hmin, hmax⟩
    exact ⟨hup, hdown, hbeyond, hstrong, hmin, hmax⟩
  · rintro ⟨hup, hdown, hbeyond, hstrong, hmin, hmax⟩
    exact ⟨⟨hup, hdown, hbeyond⟩, hstrong, hmin, hmax⟩

theorem find?_eq_none_iff : q.find? stations = none ↔ ∀ s ∈ stations, ¬ q.Candidate s := by
  rw [find?, List.find?_eq_none]
  cases q.up <;> simp [stopsOn_iff]

theorem mem_of_find? (h : q.find? stations = some s) : s ∈ stations := by
  have hmem := List.mem_of_find?_eq_some h
  cases hup : q.up with
  | true => simpa [hup] using hmem
  | false => simpa [hup] using hmem

theorem stopsAt_of_find? (hascending : stations.Pairwise (·.khz ≤ ·.khz))
    (h : q.find? stations = some s) : q.StopsAt stations s := by
  refine ⟨mem_of_find? h, stopsOn_iff.mp (List.find?_some h), fun hup t ht hother ↦ ?_,
    fun hdown t ht hother ↦ ?_⟩
  · rw [find?, if_pos hup] at h
    rcases rel_of_find? hascending h ht (stopsOn_iff.mpr hother) with rfl | hle
    · exact le_rfl
    · exact hle
  · rw [find?, if_neg (ne_true_of_eq_false hdown)] at h
    have hdescending : stations.reverse.Pairwise (·.khz ≥ ·.khz) :=
      List.pairwise_reverse.mpr hascending
    rcases rel_of_find? hdescending h (List.mem_reverse.mpr ht) (stopsOn_iff.mpr hother) with
      rfl | hge
    · exact le_rfl
    · exact hge

theorem StopsAt.of_mem_iff {others : List Transmitter} (hmem : ∀ t, t ∈ stations ↔ t ∈ others)
    (h : q.StopsAt stations s) : q.StopsAt others s := by
  obtain ⟨hs, hcandidate, hup, hdown⟩ := h
  exact ⟨(hmem s).mp hs, hcandidate, fun hq t ht ↦ hup hq t ((hmem t).mpr ht),
    fun hq t ht ↦ hdown hq t ((hmem t).mpr ht)⟩

end Search

/-! ## What a search has come to -/

variable {c d e : Chip} {settings : ChipSettings} {past deeds : List Deed} {call : Call}
  {deed : Deed} {q : Search}

/-- A chip that has come to rest: on a nearest candidate, or at the far limit of the band, where it
reports a failure. -/
structure Rests (d : Chip) (q : Search) (stations : List Transmitter) : Prop where
  found : (∃ s ∈ stations, q.Candidate s) →
    ∃ s, q.StopsAt stations s ∧ d.tuned = s.freq ∧ d.flags &&& Register.finishedFlag ≠ 0 ∧
      d.flags &&& Register.failedFlag = 0
  missed : (∀ s ∈ stations, ¬ q.Candidate s) →
    d.tuned = q.edge ∧ d.flags = Register.finishedFlag ||| Register.failedFlag

theorem flags_of_found (c : Chip) (f : Freq) :
    (Register.finishedFlag ||| c.stereoFlagAt f) &&& Register.finishedFlag ≠ 0 ∧
      (Register.finishedFlag ||| c.stereoFlagAt f) &&& Register.failedFlag = 0 := by
  rw [stereoFlagAt_eq]
  cases c.stereoAt f <;> decide

theorem Searched.rests (h : c.Searched q d)
    (hstations : c.stations = (ofSettings settings).stations) : d.Rests q settings.stations := by
  have hmem : ∀ s, s ∈ c.stations ↔ s ∈ settings.stations := fun s ↦ by
    rw [hstations]
    exact ChipSettings.mem_stations
  have hascending : c.stations.Pairwise (·.khz ≤ ·.khz) := by
    rw [hstations]
    exact ChipSettings.ascending_stations
  constructor
  · rintro ⟨s, hs, hcandidate⟩
    cases hfind : q.find? c.stations with
    | none => exact absurd hcandidate (Search.find?_eq_none_iff.mp hfind s ((hmem s).mpr hs))
    | some t =>
        obtain ⟨htuned, hflags⟩ := h.found t hfind
        refine ⟨t, (Search.stopsAt_of_find? hascending hfind).of_mem_iff hmem, htuned, ?_⟩
        rw [hflags]
        exact c.flags_of_found ⟨t.khz⟩
  · intro hnone
    apply h.missed
    exact Search.find?_eq_none_iff.mpr fun s hs ↦ hnone s ((hmem s).mp hs)

/-- A powered chip takes every call for a search, and searches as its registers ask. -/
theorem searched_of_call (hpowered : c.powered = true) (hdeed : call.deed? = some deed)
    (hmode : deed.mode? = some Register.autoSearch) :
    ∃ d, c.call call = some (d, .vendor Register.confirmOpcode
        [0, Register.searchTuneMode, Register.writeAccess]) ∧ c.Searched c.search d := by
  obtain ⟨value, rfl, hvalue⟩ := Deed.eq_of_mode? hmode
  obtain ⟨d, hwrite, hsearched⟩ := c.searched_of_write hvalue
  exact ⟨d, call_of_does hdeed (.write hpowered hwrite), hsearched⟩

/-- As long as nothing steers the tuner and the power stays on, so many reads of the status find the
search busy, and the others find the flags that it has set. -/
theorem Serves.status (h : d.Serves deeds e) (hpowered : d.powered = true)
    (hdeeds : ∀ deed ∈ deeds, deed.steers = false ∧ deed ≠ .power false) {length : UInt8}
    (hcall : call.deed? = some (.read Register.flags length)) :
    ∃ after, e.call call = some (after, answerTo Register.flags length
      (if deeds.countP Deed.readsFlags < d.busyReads then 0 else d.flags)) := by
  obtain ⟨hon, hflags, hbusy⟩ := h.waits hpowered hdeeds
  obtain ⟨after, word, hread⟩ := e.exists_read (show Register.flags.toNat < 32 by decide)
  refine ⟨after, ?_⟩
  rcases read_cases hread with ⟨-, -, hword⟩ | ⟨hne, -⟩
  · rw [call_of_does hcall (.read hon hread), hword, hflags, hbusy]
    simp only [Nat.sub_pos_iff_lt]
  · exact absurd rfl hne

/-- Wherever the calls so far have brought a powered chip, a call for a search is taken. The chip
comes to rest as the search that the past asks for says, and until the tuner is steered again or the
power is switched off, the status is busy for the first reads and the outcome for all later ones. -/
theorem search_rests_and_reports (hpast : (ofSettings settings).Serves past c)
    (hpowered : c.powered = true) (hdeed : call.deed? = some deed)
    (hmode : deed.mode? = some Register.autoSearch) :
    ∃ d, c.call call = some (d, .vendor Register.confirmOpcode
        [0, Register.searchTuneMode, Register.writeAccess]) ∧
      d.Rests (Deed.search past c.tuned) settings.stations ∧
      ∀ deeds e, d.Serves deeds e → (∀ deed ∈ deeds, deed.steers = false ∧ deed ≠ .power false) →
        ∀ status length, Call.deed? status = some (.read Register.flags length) →
          ∃ after, e.call status = some (after, answerTo Register.flags length
            (if deeds.countP Deed.readsFlags < settings.searchPolls then 0 else d.flags)) := by
  obtain ⟨d, hcall, hsearched⟩ := searched_of_call hpowered hdeed hmode
  obtain ⟨hstations, hpolls⟩ := hpast.stations
  have hon : d.powered = true := hsearched.same.powered.trans hpowered
  have hbusy : d.busyReads = settings.searchPolls := hsearched.busyReads.trans hpolls
  rw [hpast.search] at hsearched
  refine ⟨d, hcall, hsearched.rests hstations, fun deeds e hserves hdeeds status length hstatus ↦ ?_⟩
  rw [← hbusy]
  exact hserves.status hon hdeeds hstatus

/-- Transmitters out of order, two of them on one frequency. -/
def shared : ChipSettings where
  stations := [⟨104000, 50, false⟩, ⟨95800, 20, false⟩, ⟨95800, 60, true⟩, ⟨88100, 70, true⟩]
  searchPolls := 2

theorem shared_search_skips_weak_station :
    let past := [.write Register.searchControl 0xa8, .write Register.frequency 26000, .power true]
    let mode := Call.vendor Register.accessOpcode
      [Register.searchTuneMode, Register.writeAccess, Register.autoSearch]
    let status := Call.vendor Register.accessOpcode [Register.flags, Register.readAccess, 2]
    ∃ c d, (ofSettings shared).Serves past c ∧ c.powered = true ∧
      Call.deed? mode = some (.write Register.searchTuneMode 2) ∧
      c.call mode = some (d, .vendor Register.confirmOpcode
        [0, Register.searchTuneMode, Register.writeAccess]) ∧
      d.tuned = ⟨95800⟩ ∧ d.flags &&& Register.failedFlag = 0 ∧
      ∃ after, d.call status = some (after, answerTo Register.flags 2 0) := by
  intro past mode status
  obtain ⟨c, hpast, hpowered⟩ :
      ∃ c, (ofSettings shared).Serves past c ∧ c.powered = true := by
    let control := Call.vendor Register.accessOpcode
      [Register.searchControl, Register.writeAccess, 0xa8]
    let start := Call.vendor Register.accessOpcode
      [Register.frequency, Register.writeAccess, 0x90, 0x65]
    have hon : (ofSettings shared).Serves [.power true] _ :=
      .call .start (show Call.deed? (.power true) = _ from rfl) rfl
    have hstart := Serves.call hon (show Call.deed? start = _ from rfl) rfl
    exact ⟨_, .call hstart (show Call.deed? control = _ from rfl) rfl, rfl⟩
  have hmode : Call.deed? mode = some (.write Register.searchTuneMode 2) := by decide
  obtain ⟨d, hcall, hrests, hstatus⟩ := search_rests_and_reports hpast hpowered hmode rfl
  have hsearch : Deed.search past c.tuned = ⟨true, 40, ⟨90000⟩, true, .europeUs⟩ := by
    rw [Deed.search, if_pos (by decide)]
    decide
  rw [hsearch] at hrests
  have hstrong : Search.Candidate ⟨true, 40, ⟨90000⟩, true, .europeUs⟩ ⟨95800, 60, true⟩ := by
    constructor <;> decide
  obtain ⟨s, hstops, htuned, -, hfailed⟩ := hrests.found ⟨_, by decide, hstrong⟩
  obtain ⟨hmem, hcandidate, hnearest, -⟩ := hstops
  have hle : s.khz ≤ 95800 := hnearest rfl _ (by decide) hstrong
  have hge : 90000 ≤ s.khz := hcandidate.up rfl
  refine ⟨c, d, hpast, hpowered, hmode, hcall, ?_, hfailed, ?_⟩
  · rw [htuned]
    simp only [shared, List.mem_cons, List.not_mem_nil, or_false] at hmem
    rcases hmem with rfl | rfl | rfl | rfl
    · simp at hle
    · rfl
    · rfl
    · simp at hge
  · exact hstatus [] d .start (by simp) status 2 (by decide)

end Chip

end FmTuner
