import FmTuner.Proofs.Deeds
import FmTuner.Proofs.Searching
import Mathlib.Data.List.Find

/-!
# Reception

Which transmitters a radio can hear, and that an upward search on its chip comes to them one after
another: the next is the first one above where the search began.
-/

namespace FmTuner

/-! ## Presets -/

namespace Band

/-- The bands that are known by name. -/
def presets : List Band := [europeUs, us, japan]

variable {b : Band}

theorem ofName_mem_presets {name : String} (h : ofName name = .ok b) : b ∈ presets := by
  unfold ofName at h
  split at h <;> cases h <;> simp [presets]

theorem inRange_of_preset (hb : b ∈ presets) : b.InRange := by
  simp only [presets, List.mem_cons, List.not_mem_nil, or_false] at hb
  rcases hb with rfl | rfl | rfl <;> exact ⟨by decide, by decide⟩

theorem isValid_min_of_preset (hb : b ∈ presets) : b.isValid b.min = true := by
  revert b
  decide

theorem inRegister_of_preset (hb : b ∈ presets) {f : Freq} (hf : b.isValid f = true) :
    f.InRegister := by
  have hlimits : ∀ b ∈ presets, 64000 ≤ b.min.khz ∧ b.max.khz ≤ 129535 := by decide
  obtain ⟨hmin, hmax, -⟩ := isValid_iff.mp hf
  exact ⟨(hlimits b hb).1.trans hmin, hmax.trans (hlimits b hb).2⟩

end Band

/-- The band that the chip searches in a region. -/
def Region.band : Region → Band
  | .europeUs => .europeUs
  | .japan => .japan

theorem Band.region_covers {b : Band} (hb : b ∈ presets) :
    b.region.band.min.khz ≤ b.min.khz ∧ b.max.khz ≤ b.region.band.max.khz := by
  revert b
  decide

theorem Chip.band_of_setup {c : Chip} {a : Attributes} (h : c.setup = a.setup) :
    c.band = a.band.region.band := by
  have hcontrol : c.register Register.fmControl =
      (Register.fmControlValue a.band a.forceMono).toUInt16 := congrArg Setup.control h
  rw [band, hcontrol, Register.fmControlValue, Register.bandBits]
  cases a.band.region <;> cases a.forceMono <;> rfl

/-! ## Transmitters in reach -/

def Transmitter.freq (s : Transmitter) : Freq := ⟨s.khz⟩

/-- A transmitter as the radio records it. -/
def Transmitter.station (s : Transmitter) : Station := ⟨s.freq, s.rssi⟩

/-- Whether a transmitter lies in the band and is as strong as the threshold asks for. -/
def Attributes.hears (a : Attributes) (s : Transmitter) : Bool :=
  110 - a.threshold / 10 ≤ s.rssi.toNat && a.band.min.khz ≤ s.khz && s.khz ≤ a.band.max.khz

/-- The transmitters that the radio can hear, in ascending order. -/
def ChipSettings.receivable (settings : ChipSettings) (a : Attributes) : List Transmitter :=
  (settings.stations.mergeSort fun s t ↦ s.khz ≤ t.khz).filter a.hears

theorem Register.searchLevel_le {threshold : Nat} {level : UInt8} :
    searchLevel threshold ≤ level ↔ 110 - threshold / 10 ≤ level.toNat := by
  rw [UInt8.le_iff_toNat_le, searchLevel, UInt8.toNat_ofNat', Nat.mod_eq_of_lt (by omega)]

namespace Transmitter

theorem khz_le_trans (s t u : Transmitter) (hst : decide (s.khz ≤ t.khz) = true)
    (htu : decide (t.khz ≤ u.khz) = true) : decide (s.khz ≤ u.khz) = true := by
  rw [decide_eq_true_eq] at hst htu ⊢
  exact hst.trans htu

theorem khz_le_total (s t : Transmitter) :
    (decide (s.khz ≤ t.khz) || decide (t.khz ≤ s.khz)) = true := by
  rw [Bool.or_eq_true, decide_eq_true_eq, decide_eq_true_eq]
  exact Nat.le_total _ _

end Transmitter

namespace ChipSettings

variable {settings : ChipSettings}

theorem mem_stations {s : Transmitter} :
    s ∈ (Chip.ofSettings settings).stations ↔ s ∈ settings.stations :=
  List.mem_mergeSort

theorem ascending_stations : (Chip.ofSettings settings).stations.Pairwise (·.khz ≤ ·.khz) := by
  have hsorted : (Chip.ofSettings settings).stations.Pairwise
      fun s t ↦ decide (s.khz ≤ t.khz) = true :=
    List.pairwise_mergeSort Transmitter.khz_le_trans Transmitter.khz_le_total _
  simpa using hsorted

theorem sorted_stations (h : (settings.stations.map Transmitter.khz).Nodup) :
    (Chip.ofSettings settings).stations.Pairwise (·.khz < ·.khz) := by
  have hperm : (Chip.ofSettings settings).stations.Perm settings.stations :=
    List.mergeSort_perm ..
  have hne : (Chip.ofSettings settings).stations.Pairwise (·.khz ≠ ·.khz) :=
    List.pairwise_map.mp ((hperm.map Transmitter.khz).nodup_iff.mpr h)
  exact (ascending_stations.and hne).imp fun h ↦ Nat.lt_of_le_of_ne h.1 h.2

end ChipSettings

theorem rel_of_find? {α : Type} {R : α → α → Prop} {p : α → Bool} {l : List α} (h : l.Pairwise R)
    {a b : α} (hfind : l.find? p = some a) (hb : b ∈ l) (hp : p b = true) : b = a ∨ R a b := by
  obtain ⟨-, before, after, rfl, hbefore⟩ := List.find?_eq_some_iff_append.mp hfind
  rw [List.pairwise_append, List.pairwise_cons] at h
  rcases List.mem_append.mp hb with hb | hb
  · exact absurd hp (by simpa using hbefore b hb)
  · rcases List.mem_cons.mp hb with rfl | hb
    · exact .inl rfl
    · exact .inr (h.2.1.1 b hb)

/-! ## Searches up a band -/

namespace Chip

theorem upwards_stopsOn {c : Chip} {threshold : Nat} {f : Freq} {s : Transmitter} :
    (c.upwards threshold f).stopsOn s = true ↔
      f.khz ≤ s.khz ∧ 110 - threshold / 10 ≤ s.rssi.toNat ∧
        c.band.min.khz ≤ s.khz ∧ s.khz ≤ c.band.max.khz := by
  have hahead : (c.upwards threshold f).ahead s = true ↔ f.khz ≤ s.khz := by
    change (decide (f.khz < s.khz) || (true && s.khz == f.khz)) = true ↔ _
    simp only [Bool.true_and, Bool.or_eq_true, decide_eq_true_eq, beq_iff_eq]
    omega
  rw [Search.stopsOn_iff_ahead, hahead]
  simp only [upwards, Register.searchLevel_le]

/-- On its way up a band the chip meets `stations`, and no others. -/
structure Receives (c : Chip) (b : Band) (threshold : Nat) (stations : List Transmitter) :
    Prop where
  powered : c.powered = true
  search : ∀ f, b.isValid f = true →
    (c.upwards threshold f).find? c.stations = stations.find? (f.khz ≤ ·.khz)
  level : ∀ s ∈ stations, c.rssiAt s.freq = s.rssi
  valid : ∀ s ∈ stations, b.isValid s.freq = true
  sorted : stations.Pairwise (·.khz < ·.khz)

variable {c d : Chip} {b : Band} {threshold : Nat} {stations : List Transmitter}

theorem Receives.same (h : c.Receives b threshold stations) (hsame : c.Same d) :
    d.Receives b threshold stations := by
  obtain ⟨hpowered, hsearch, hlevel, hvalid, hsorted⟩ := h
  refine ⟨hsame.powered.trans hpowered, fun f hf ↦ ?_, fun s hs ↦ ?_, hvalid, hsorted⟩
  · rw [← hsearch f hf, upwards, upwards, hsame.band, hsame.stations]
  · rw [← hlevel s hs, rssiAt, rssiAt, stationAt?, stationAt?, hsame.stations]

theorem rssiAt_of_mem (hsorted : c.stations.Pairwise (·.khz < ·.khz)) {s : Transmitter}
    (hs : s ∈ c.stations) : c.rssiAt s.freq = s.rssi := by
  have hfind : c.stationAt? s.freq = some s := by
    obtain ⟨before, after, hsplit⟩ := List.append_of_mem hs
    rw [hsplit, List.pairwise_append] at hsorted
    rw [stationAt?, hsplit, List.find?_append, List.find?_eq_none.mpr, Option.none_or, List.find?_cons_of_pos]
    · simp [Transmitter.freq]
    · intro t ht
      have hlt : t.khz < s.khz := hsorted.2.2 t ht s List.mem_cons_self
      simp [Transmitter.freq, Nat.ne_of_lt hlt]
  rw [rssiAt, hfind]

/-- A chip that is set up for a band receives what the radio can hear, if its transmitters keep to
the channels of that band. -/
theorem receives_of_setup {settings : ChipSettings} {a : Attributes}
    (hstations : c.stations = (ofSettings settings).stations) (hsetup : c.setup = a.setup)
    (hband : a.band ∈ Band.presets) (hdistinct : (settings.stations.map Transmitter.khz).Nodup)
    (hchannels : ∀ s ∈ settings.stations, c.band.min.khz ≤ s.khz → s.khz ≤ c.band.max.khz →
      a.band.isValid s.freq = true) :
    c.Receives a.band a.threshold (settings.receivable a) := by
  have hsorted := ChipSettings.sorted_stations hdistinct
  have hmem : ∀ s, s ∈ c.stations ↔ s ∈ settings.stations := fun s ↦ by
    rw [hstations]
    exact ChipSettings.mem_stations
  have hreceivable : settings.receivable a = c.stations.filter a.hears := by
    rw [hstations]
    rfl
  have hcovers : c.band.min.khz ≤ a.band.min.khz ∧ a.band.max.khz ≤ c.band.max.khz := by
    rw [band_of_setup hsetup]
    exact Band.region_covers hband
  rw [← hstations] at hsorted
  rw [hreceivable]
  refine ⟨congrArg Setup.powered hsetup, fun f hf ↦ ?_, fun s hs ↦ ?_, fun s hs ↦ ?_,
    hsorted.filter _⟩
  · rw [List.find?_filter]
    refine List.find?_congr fun s hs ↦ ?_
    -- Inside the limits of the chip there are only channels, so the limits of the band say the same.
    have hinside : c.band.min.khz ≤ s.khz ∧ s.khz ≤ c.band.max.khz ↔
        a.band.min.khz ≤ s.khz ∧ s.khz ≤ a.band.max.khz := by
      refine ⟨fun h ↦ ?_, fun h ↦ ⟨hcovers.1.trans h.1, h.2.trans hcovers.2⟩⟩
      obtain ⟨hmin, hmax, -⟩ := Band.isValid_iff.mp (hchannels s ((hmem s).mp hs) h.1 h.2)
      exact ⟨hmin, hmax⟩
    rw [Bool.eq_iff_iff, upwards_stopsOn, hinside]
    simp [Attributes.hears, and_comm, and_assoc]
  · exact rssiAt_of_mem hsorted (List.mem_of_mem_filter hs)
  · obtain ⟨hs, hhears⟩ := List.mem_filter.mp hs
    simp only [Attributes.hears, Bool.and_eq_true, decide_eq_true_eq] at hhears
    exact hchannels s ((hmem s).mp hs) (hcovers.1.trans hhears.1.2) (hhears.2.trans hcovers.2)

end Chip

/-! ## What a circuit keeps -/

theorem Chip.serve_stations (c : Chip) (sent : List (Call × Bool)) :
    (c.serve sent).1.stations = c.stations ∧ (c.serve sent).1.searchPolls = c.searchPolls := by
  obtain ⟨deeds, hserves⟩ := c.exists_serves sent
  exact hserves.stations

theorem Turn.Move.timing {accepts : Call → Bool} {e : Option Event} {t u : Turn}
    (h : Move accepts e t u) : u.radio.timing = t.radio.timing := by
  cases h with
  | decline htaken | begin htaken | flash htaken => cases htaken <;> simp [Controller.resolved]
  | _ => simp [Controller.resolved]

namespace Circuit.Reaches

variable {timing : Timing} {settings : ChipSettings} {events : List Event} {history : Journal}
  {c : Circuit}

theorem stations (h : Reaches timing settings events history c) :
    c.receiver.chip.stations = (Chip.ofSettings settings).stations ∧
      c.receiver.chip.searchPolls = settings.searchPolls := by
  induction h with
  | start => exact ⟨rfl, rfl⟩
  | step _ _ hstep ih =>
      obtain ⟨turn, -, rfl, rfl⟩ := step_ok hstep
      obtain ⟨hstations, hpolls⟩ := Chip.serve_stations _ turn.journal.sent
      exact ⟨hstations.trans ih.1, hpolls.trans ih.2⟩

theorem radio_timing (h : Reaches timing settings events history c) :
    c.receiver.radio.timing = timing := by
  obtain ⟨script, -, hrun⟩ := h.run_eq
  exact (Controller.run_induction (P := fun t ↦ t.radio.timing = timing) rfl
    (fun _ _ _ _ _ ht _ _ hmove ↦ hmove.timing.trans ht)
    (fun _ _ _ ht _ hmove ↦ hmove.timing.trans ht) hrun).1

theorem onGrid (h : Reaches timing settings events history c) :
    c.receiver.radio.attributes.OnGrid := by
  obtain ⟨script, -, hrun⟩ := h.run_eq
  have hinitial : (Controller.initial timing).OnGrid := by
    refine ⟨fun f hf ↦ ?_, fun p hp ↦ ?_⟩
    · simp [Controller.initial] at hf
    · simp [Controller.initial] at hp
  exact (Controller.run_induction (P := fun t ↦ t.radio.OnGrid) hinitial
    (fun _ _ _ _ _ ht _ _ hmove ↦ hmove.onGrid ht)
    (fun _ _ _ ht _ hmove ↦ hmove.onGrid ht) hrun).1.attributes

end Circuit.Reaches

end FmTuner
