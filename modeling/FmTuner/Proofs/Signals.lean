import FmTuner.Config.Basic
import FmTuner.Proofs.Landings

/-!
# Signals

What a radio is told of the station on which a search has stopped. The search looks for a station that
is strong enough, but what is read afterwards is that of the first transmitter, in the order of the
settings, on the frequency that was found. The two agree when no two transmitters share a frequency;
in general the level that was asked for is read exactly when that first transmitter reaches it.
-/

namespace FmTuner

/-! ## The first transmitter on a frequency -/

theorem find?_mergeSort {α : Type} {le : α → α → Bool} {p : α → Bool}
    (htrans : ∀ a b c, le a b = true → le b c = true → le a c = true)
    (htotal : ∀ a b, (le a b || le b a) = true)
    (hp : ∀ a b, p a = true → p b = true → le a b = true) (l : List α) :
    (l.mergeSort le).find? p = l.find? p := by
  have hperm : ((l.mergeSort le).filter p).Perm (l.filter p) := (List.mergeSort_perm l le).filter p
  have hpairwise : (l.filter p).Pairwise fun a b ↦ le a b = true := by
    refine List.pairwise_of_forall_mem_list fun a ha b hb ↦ ?_
    exact hp a b (List.mem_filter.mp ha).2 (List.mem_filter.mp hb).2
  -- Sorting is stable: the entries that come out equal keep their order.
  have hsublist : (l.filter p).Sublist ((l.mergeSort le).filter p) := by
    have hstable := (List.sublist_mergeSort htrans htotal hpairwise List.filter_sublist).filter p
    simpa only [List.filter_filter, Bool.and_self] using hstable
  calc (l.mergeSort le).find? p
      = ((l.mergeSort le).filter p).head? := List.head?_filter.symm
    _ = (l.filter p).head? := by rw [hsublist.eq_of_length hperm.length_eq.symm]
    _ = l.find? p := List.head?_filter

namespace Chip

variable {c d e : Chip} {settings : ChipSettings} {past deeds : List Deed} {call : Call}
  {deed : Deed} {q : Search} {s : Transmitter}

theorem stationAt?_ofSettings (settings : ChipSettings) (f : Freq) :
    (ofSettings settings).stationAt? f = settings.stations.find? (·.khz = f.khz) := by
  refine find?_mergeSort Transmitter.khz_le_trans Transmitter.khz_le_total (fun s t hs ht ↦ ?_) _
  rw [decide_eq_true_eq] at hs ht ⊢
  exact (hs.trans ht.symm).le

/-! ## What is read of a station -/

/-- Until the tuner is steered again the level of a transmitter is read, and, as long as the power
stays on, after the busy reads of the status whether it is in stereo. -/
structure Reports (d : Chip) (polls : Nat) (s : Transmitter) : Prop where
  level : ∀ deeds e, d.Serves deeds e → (∀ deed ∈ deeds, deed.steers = false) →
    e.powered = true → ∀ call length, Call.deed? call = some (.read Register.signal length) →
      ∃ after, e.call call = some (after, answerTo Register.signal length s.rssi.toUInt16)
  stereo : ∀ deeds e, d.Serves deeds e →
    (∀ deed ∈ deeds, deed.steers = false ∧ deed ≠ .power false) →
      polls ≤ deeds.countP Deed.readsFlags →
        ∀ call length, Call.deed? call = some (.read Register.flags length) →
          ∃ after, e.call call = some (after, answerTo Register.flags length
            (Register.finishedFlag ||| if s.stereo then Register.stereoFlag else 0))

/-- What is read is that of one transmitter on the tuned frequency, which reaches a level. -/
def Attests (d : Chip) (settings : ChipSettings) (level : UInt8) : Prop :=
  ∃ s ∈ settings.stations, s.freq = d.tuned ∧ level ≤ s.rssi ∧ d.Reports settings.searchPolls s

theorem Serves.signal (h : d.Serves deeds e) (hsteers : ∀ deed ∈ deeds, deed.steers = false)
    (hpowered : e.powered = true) {length : UInt8}
    (hcall : call.deed? = some (.read Register.signal length)) :
    ∃ after, e.call call =
      some (after, answerTo Register.signal length (d.rssiAt d.tuned).toUInt16) := by
  have hlevel : e.rssiAt e.tuned = d.rssiAt d.tuned := by
    rw [rssiAt, rssiAt, stationAt?, stationAt?, h.stations.1, h.tuned hsteers]
  refine ⟨e, call_of_does hcall (.read hpowered ?_)⟩
  rw [← hlevel]
  rfl

/-- What is read after a search is that of the first transmitter on the tuned frequency. -/
theorem reports_of_stationAt? {polls : Nat} (hpowered : d.powered = true)
    (hflags : d.flags = Register.finishedFlag ||| d.stereoFlagAt d.tuned)
    (hbusy : d.busyReads = polls) (hs : d.stationAt? d.tuned = some s) : d.Reports polls s := by
  constructor
  · intro deeds e hserves hsteers hon call length hcall
    obtain ⟨after, hread⟩ := hserves.signal hsteers hon hcall
    rw [rssiAt, hs] at hread
    exact ⟨after, hread⟩
  · intro deeds e hserves hdeeds hpolls call length hcall
    obtain ⟨after, hread⟩ := hserves.status hpowered hdeeds hcall
    rw [hbusy, if_neg (Nat.not_lt_of_le hpolls), hflags, stereoFlagAt, hs] at hread
    exact ⟨after, hread⟩

/-- The levels of other transmitters are not read. -/
theorem Reports.level_eq {polls : Nat} (h : d.Reports polls s) (hpowered : d.powered = true) :
    s.rssi = d.rssiAt d.tuned := by
  have hcall : Call.deed? (.vendor Register.accessOpcode [Register.signal, Register.readAccess, 1]) =
      some (.read Register.signal 1) := by decide
  have hnone : ∀ deed ∈ ([] : List Deed), deed.steers = false := List.forall_mem_nil _
  obtain ⟨after, hreported⟩ := h.level [] d .start hnone hpowered _ 1 hcall
  obtain ⟨after', hread⟩ := Serves.signal .start hnone hpowered hcall
  have hanswer := congrArg Prod.snd (Option.some.inj (hreported.symm.trans hread))
  have hbytes : (1 : UInt8).toNat = 1 := rfl
  simpa only [answerTo, hbytes, Bytes.take_ofWord, Callback.vendor.injEq, List.append_cancel_left_eq,
    List.cons.injEq, and_true, true_and] using hanswer

/-! ## After a search -/

theorem Searched.succeeded (h : c.Searched q d) (hsuccess : d.flags &&& Register.failedFlag = 0) :
    ∃ s, q.find? c.stations = some s ∧ d.tuned = s.freq := by
  cases hfind : q.find? c.stations with
  | some s => exact ⟨s, rfl, (h.found s hfind).1⟩
  | none =>
      rw [(h.missed hfind).2] at hsuccess
      exact absurd hsuccess (by decide)

theorem Searched.stationAt?_eq (h : c.Searched q d)
    (hstations : c.stations = (ofSettings settings).stations) (f : Freq) :
    d.stationAt? f = settings.stations.find? (·.khz = f.khz) := by
  rw [← stationAt?_ofSettings, stationAt?, stationAt?, h.same.stations, hstations]

/-- The first transmitter on the frequency that was found decides whether the level that is read is
reached. -/
theorem Searched.attests_iff (h : c.Searched q d) (hpowered : c.powered = true)
    (hstations : c.stations = (ofSettings settings).stations ∧
      c.searchPolls = settings.searchPolls)
    (hsuccess : d.flags &&& Register.failedFlag = 0) :
    ∃ first, settings.stations.find? (·.khz = d.tuned.khz) = some first ∧
      ∀ level, d.Attests settings level ↔ level ≤ first.rssi := by
  obtain ⟨hstations, hpolls⟩ := hstations
  obtain ⟨s, hfind, htuned⟩ := h.succeeded hsuccess
  have hon : d.powered = true := h.same.powered.trans hpowered
  have hlookup := h.stationAt?_eq hstations d.tuned
  have hs : s ∈ settings.stations := by
    apply ChipSettings.mem_stations.mp
    rw [← hstations]
    exact Search.mem_of_find? hfind
  cases hfirst : settings.stations.find? (·.khz = d.tuned.khz) with
  | none =>
      have hnot := List.find?_eq_none.mp hfirst s hs
      rw [htuned] at hnot
      simp [Transmitter.freq] at hnot
  | some first =>
      rw [hfirst] at hlookup
      refine ⟨first, rfl, fun level ↦ ⟨?_, fun hlevel ↦ ?_⟩⟩
      · rintro ⟨t, -, -, hlevel, hreports⟩
        rw [hreports.level_eq hon, rssiAt, hlookup] at hlevel
        exact hlevel
      · have hkhz : first.khz = d.tuned.khz := by simpa using List.find?_some hfirst
        refine ⟨first, List.mem_of_find?_eq_some hfirst, congrArg Freq.mk hkhz, hlevel, ?_⟩
        exact reports_of_stationAt? hon (h.flags_of_found hfind) (h.busyReads.trans hpolls) hlookup

/-- After a search that has succeeded, what is read is that of one transmitter on the tuned frequency
that reaches the level of the search, if and only if the first one listed on that frequency does. It
always is when no two transmitters share a frequency. -/
theorem reported_level_reached_iff_first_strong (hpast : (ofSettings settings).Serves past c)
    (hpowered : c.powered = true) (hdeed : call.deed? = some deed)
    (hmode : deed.mode? = some Register.autoSearch) :
    ∃ d, c.call call = some (d, .vendor Register.confirmOpcode
        [0, Register.searchTuneMode, Register.writeAccess]) ∧
      (d.flags &&& Register.failedFlag = 0 →
        (∃ first, settings.stations.find? (·.khz = d.tuned.khz) = some first ∧
          (d.Attests settings (Deed.search past c.tuned).level ↔
            (Deed.search past c.tuned).level ≤ first.rssi)) ∧
        ((settings.stations.map Transmitter.khz).Nodup →
          d.Attests settings (Deed.search past c.tuned).level)) := by
  obtain ⟨d, hcall, hsearched⟩ := searched_of_call hpowered hdeed hmode
  rw [hpast.search] at hsearched
  refine ⟨d, hcall, fun hsuccess ↦ ?_⟩
  obtain ⟨first, hfirst, hattests⟩ := hsearched.attests_iff hpowered hpast.stations hsuccess
  refine ⟨⟨first, hfirst, hattests _⟩, fun hdistinct ↦ (hattests _).mpr ?_⟩
  obtain ⟨s, hfind, htuned⟩ := hsearched.succeeded hsuccess
  rw [hpast.stations.1] at hfind
  have hstops := Search.stopsAt_of_find? ChipSettings.ascending_stations hfind
  have hkhz : first.khz = s.freq.khz := by
    rw [htuned] at hfirst
    simpa using List.find?_some hfirst
  rw [List.inj_on_of_nodup_map hdistinct (List.mem_of_find?_eq_some hfirst)
    (ChipSettings.mem_stations.mp hstops.mem) hkhz]
  exact hstops.candidate.strong

/-! ## Two transmitters on one frequency -/

/-- The power is switched on, and a search upwards is asked for stations of level 40 or more. -/
def asked : List Deed := [.write Register.searchControl 0xa8, .power true]

def searchCall : Call :=
  .vendor Register.accessOpcode [Register.searchTuneMode, Register.writeAccess, Register.autoSearch]

/-- A search for transmitters of one frequency stops on it if one of them is strong. -/
theorem exists_found (settings : ChipSettings) (khz : Nat)
    (hshared : ∀ s ∈ settings.stations, s.khz = khz)
    (hstrong : ∃ s ∈ settings.stations, Search.Candidate ⟨true, 40, ⟨87500⟩, false, .europeUs⟩ s) :
    ∃ c d, (ofSettings settings).Serves asked c ∧ c.powered = true ∧
      (Deed.search asked c.tuned).level = 40 ∧
      c.call searchCall = some (d, .vendor Register.confirmOpcode
        [0, Register.searchTuneMode, Register.writeAccess]) ∧
      c.Searched c.search d ∧ d.tuned = ⟨khz⟩ ∧ d.flags &&& Register.failedFlag = 0 := by
  obtain ⟨c, hpast, hpowered, hsearch⟩ :
      ∃ c, (ofSettings settings).Serves asked c ∧ c.powered = true ∧
        Deed.search asked c.tuned = ⟨true, 40, ⟨87500⟩, false, .europeUs⟩ := by
    let control := Call.vendor Register.accessOpcode
      [Register.searchControl, Register.writeAccess, 0xa8]
    have hon : (ofSettings settings).Serves [.power true] _ :=
      .call .start (show Call.deed? (.power true) = _ from rfl) rfl
    refine ⟨_, .call hon (show Call.deed? control = _ from rfl) rfl, rfl, ?_⟩
    change Deed.search asked ⟨87500⟩ = _
    decide
  have hmode : Call.deed? searchCall = some (.write Register.searchTuneMode 2) := by decide
  obtain ⟨d, hcall, hsearched⟩ := searched_of_call hpowered hmode rfl
  have hrests := hsearched.rests hpast.stations.1
  rw [hpast.search, hsearch] at hrests
  obtain ⟨s, hstops, htuned, -, hflags⟩ := hrests.found hstrong
  refine ⟨c, d, hpast, hpowered, congrArg Search.level hsearch, hcall, hsearched, ?_, hflags⟩
  rw [htuned, Transmitter.freq, hshared s hstops.mem]

/-- Of two transmitters on one frequency the first is weak. -/
def weakFirst : ChipSettings where
  stations := [⟨95800, 20, false⟩, ⟨95800, 60, true⟩]
  searchPolls := 0

def strongFirst : ChipSettings := { weakFirst with stations := weakFirst.stations.reverse }

theorem strong_first_is_reported :
    ∃ c d, (ofSettings strongFirst).Serves asked c ∧ c.powered = true ∧
      Call.deed? searchCall = some (.write Register.searchTuneMode 2) ∧
      c.call searchCall = some (d, .vendor Register.confirmOpcode
        [0, Register.searchTuneMode, Register.writeAccess]) ∧
      d.flags &&& Register.failedFlag = 0 ∧ d.Attests strongFirst 40 := by
  have hmode : Call.deed? searchCall = some (.write Register.searchTuneMode 2) := by decide
  obtain ⟨c, d, hpast, hpowered, hlevel, hcall, -, htuned, hflags⟩ :=
    exists_found strongFirst 95800 (by decide)
      ⟨⟨95800, 60, true⟩, by decide, by constructor <;> decide⟩
  obtain ⟨_, hcall', hreported⟩ := reported_level_reached_iff_first_strong hpast hpowered hmode rfl
  cases hcall.symm.trans hcall'
  obtain ⟨⟨first, hfirst, hattests⟩, -⟩ := hreported hflags
  rw [htuned] at hfirst
  have hlisted : strongFirst.stations.find? (·.khz = 95800) = some ⟨95800, 60, true⟩ := by decide
  cases hlisted.symm.trans hfirst
  rw [hlevel] at hattests
  exact ⟨c, d, hpast, hpowered, hmode, hcall, hflags, hattests.mpr (by decide)⟩

/-- A search that asked for more is answered with the level of the weak one. -/
theorem weak_first_hides_strong_station :
    ∃ c d, Config.validate { chip := weakFirst } = .ok () ∧
      (ofSettings weakFirst).Serves asked c ∧ c.powered = true ∧
      (Deed.search asked c.tuned).level = 40 ∧
      c.call searchCall = some (d, .vendor Register.confirmOpcode
        [0, Register.searchTuneMode, Register.writeAccess]) ∧
      d.flags &&& Register.failedFlag = 0 ∧ d.tuned = ⟨95800⟩ ∧
      (∃ after, d.call (.vendor Register.accessOpcode [Register.signal, Register.readAccess, 1]) =
        some (after, .vendor Register.confirmOpcode [0, Register.signal, Register.readAccess, 20])) ∧
      ¬ d.Attests weakFirst 40 := by
  obtain ⟨c, d, hpast, hpowered, hlevel, hcall, hsearched, htuned, hflags⟩ :=
    exists_found weakFirst 95800 (by decide)
      ⟨⟨95800, 60, true⟩, by decide, by constructor <;> decide⟩
  have hvalid : Config.validate { chip := weakFirst } = .ok () := by decide +kernel
  have hfirst : weakFirst.stations.find? (·.khz = 95800) = some ⟨95800, 20, false⟩ := by decide
  have hrssi : d.rssiAt d.tuned = 20 := by
    rw [rssiAt, hsearched.stationAt?_eq hpast.stations.1, htuned, hfirst]
  have hread : Call.deed? (.vendor Register.accessOpcode [Register.signal, Register.readAccess, 1]) =
      some (.read Register.signal 1) := by decide
  obtain ⟨after, hread⟩ := Serves.signal .start (List.forall_mem_nil _)
    (hsearched.same.powered.trans hpowered) hread
  rw [hrssi] at hread
  refine ⟨c, d, hvalid, hpast, hpowered, hlevel, hcall, hflags, htuned, ⟨after, hread⟩, ?_⟩
  obtain ⟨first, hfound, hattests⟩ := hsearched.attests_iff hpowered hpast.stations hflags
  rw [htuned] at hfound
  cases hfirst.symm.trans hfound
  exact fun h ↦ absurd ((hattests 40).mp h) (by decide)

end Chip

end FmTuner
