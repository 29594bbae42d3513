import FmTuner.Proofs.Attempts
import FmTuner.Proofs.Landings

/-!
# Power cycles

Without power a chip loses its registers, its flags and a busy search, and stays tuned as it was. It
does not forget that its frequency register was written: after the power is back, the next search
begins on that register, which has been cleared, and not on the tuned frequency. Whoever makes calls
can tell if and only if some transmitter in reach of the chip does not lie above the tuned
frequency.
-/

namespace FmTuner

/-- Whether a transmitter lies in one of the bands that a chip searches. -/
def Transmitter.InReach (s : Transmitter) : Prop :=
  ∃ region : Region, region.band.min.khz ≤ s.khz ∧ s.khz ≤ region.band.max.khz

theorem Region.base_lt (region : Region) : 64000 < region.band.min.khz := by
  cases region <;> decide

namespace Chip

/-- A new chip on which the power is on, tuned to a frequency. -/
def fresh (settings : ChipSettings) (tuned : Freq) : Chip :=
  { ofSettings settings with powered := true, tuned }

/-- A chip that takes its frequency register to be written. -/
def noted (c : Chip) : Chip := { c with frequencyWritten := true }

variable {c d : Chip} {settings : ChipSettings} {past : List Deed} {call : Call}

/-! ## What a power cycle leaves -/

theorem cycled_eq (h : (ofSettings settings).Serves past c) :
    (c.power false).power true =
      { fresh settings c.tuned with frequencyWritten := Deed.startGiven past } := by
  obtain ⟨hstations, hpolls⟩ := h.stations
  rw [← h.frequencyWritten]
  simp only [power, fresh, ofSettings, if_true, Bool.false_eq_true, if_false] at hstations hpolls ⊢
  rw [hstations, hpolls]

/-! ## A search from the cleared register -/

/-- Nothing in reach lies between the cleared register and the tuned frequency. -/
structure Level (c : Chip) : Prop where
  cleared : c.register Register.frequency = 0
  unwritten : c.frequencyWritten = false
  above : ∀ s ∈ c.stations, s.InReach → c.tuned.khz < s.khz

/-- Two bytes tell the word that was read. -/
theorem answerTo_inj {address : UInt8} {v w : UInt16}
    (h : answerTo address 2 v = answerTo address 2 w) : v = w := by
  obtain ⟨hlow, hhigh⟩ : UInt8.ofNat (v.toNat % 256) = UInt8.ofNat (w.toNat % 256) ∧
      UInt8.ofNat (v.toNat / 256) = UInt8.ofNat (w.toNat / 256) := by
    simpa [answerTo, Bytes.ofWord] using h
  rw [← Bytes.toWord_ofWord v, ← Bytes.toWord_ofWord w, hlow, hhigh]

theorem noted_read (c : Chip) (address : UInt8) :
    c.noted.read address = (c.read address).map fun r ↦ (r.1.noted, r.2) := by
  rw [read, read]
  split
  · rfl
  · split
    · rfl
    · split
      · by_cases hbusy : 0 < c.busyReads
        · rw [if_pos hbusy, if_pos (show 0 < c.noted.busyReads from hbusy)]
          rfl
        · rw [if_neg hbusy, if_neg (show ¬ 0 < c.noted.busyReads from hbusy)]
          rfl
      · rw [Option.map_map]
        rfl

theorem band_eq_region (c : Chip) : ∃ region : Region, c.band = region.band := by
  rw [band]
  split
  · exact ⟨.europeUs, rfl⟩
  · exact ⟨.japan, rfl⟩

namespace Level

theorem stopsOn (h : c.Level) {s : Transmitter} (hs : s ∈ c.stations) :
    c.noted.search.stopsOn s = c.search.stopsOn s := by
  obtain ⟨region, hband⟩ := c.band_eq_region
  have hstart : c.noted.search.start = ⟨64000⟩ := congrArg Freq.ofRegister h.cleared
  have htuned : c.search.start = c.tuned := if_neg (by simp [h.unwritten])
  have hinclusive : c.search.inclusive = false := h.unwritten
  rw [Bool.eq_iff_iff, Search.stopsOn_iff_ahead, Search.stopsOn_iff_ahead]
  refine and_congr_left fun ⟨_, hmin, hmax⟩ ↦ ?_
  have hlow : 64000 < s.khz := region.base_lt.trans_le (hband ▸ hmin)
  have habove : c.tuned.khz < s.khz := h.above s hs ⟨region, hband ▸ hmin, hband ▸ hmax⟩
  -- Both starts lie below the station, so that both searches come to it if they go up.
  rw [Search.ahead_iff, Search.ahead_iff, hstart, htuned, hinclusive]
  change (c.search.up = true → _) ∧ (c.search.up = false → _) ∧ (true = false → _) ↔ _
  cases c.search.up <;> simp <;> omega

theorem autoSearch (h : c.Level) : c.noted.autoSearch = c.autoSearch := by
  have hfind : c.noted.search.find? c.noted.stations = c.search.find? c.stations := by
    refine List.find?_congr fun s hs ↦ h.stopsOn ?_
    split at hs
    · exact hs
    · exact List.mem_reverse.mp hs
  simp only [Chip.autoSearch, hfind]
  cases c.search.find? c.stations <;> rfl

theorem put (h : c.Level) {address : UInt8} (haddress : address.toNat < 32) (value : UInt16)
    (hne : address ≠ Register.frequency) : (c.put address haddress value).Level :=
  ⟨by rw [register_put, if_neg hne.symm, h.cleared], h.unwritten, h.above⟩

/-- Tuning and searching settle where the tuner is; until then nothing shows what was noted. -/
theorem searchTune (h : c.Level) (mode : UInt8) :
    c.noted.searchTune mode = c.searchTune mode ∨
      c.noted.searchTune mode = (c.searchTune mode).noted ∧ (c.searchTune mode).Level := by
  unfold Chip.searchTune
  split
  · exact .inl rfl
  · split
    · exact .inl h.autoSearch
    · split
      · exact .inr ⟨rfl, h.cleared, h.unwritten, h.above⟩
      · exact .inr ⟨rfl, h⟩

theorem write (h : c.Level) {address : UInt8} {value : UInt16}
    (hwrite : c.write address value = some d) :
    ∃ e, c.noted.write address value = some e ∧ (e = d ∨ e = d.noted ∧ d.Level) := by
  obtain ⟨haddress, ⟨rfl, rfl⟩ | ⟨rfl, rfl⟩ | ⟨hfrequency, hmode, rfl⟩⟩ := write_cases hwrite
  · exact ⟨_, rfl, .inl rfl⟩
  · exact ⟨_, write_searchTuneMode c.noted value,
      (h.put haddress value (by decide)).searchTune value.toUInt8⟩
  · exact ⟨_, write_plain haddress value hfrequency hmode,
      .inr ⟨rfl, h.put haddress value hfrequency⟩⟩

theorem read (h : c.Level) {address : UInt8} {word : UInt16}
    (hread : c.read address = some (d, word)) :
    ∃ e, c.noted.read address = some (e, word) ∧ (e = d ∨ e = d.noted ∧ d.Level) := by
  refine ⟨d.noted, ?_, .inr ⟨rfl, ?_⟩⟩
  · rw [noted_read, hread]
    rfl
  · rcases read_cases hread with ⟨-, rfl, -⟩ | ⟨-, rfl⟩ <;> exact ⟨h.cleared, h.unwritten, h.above⟩

theorem does (h : c.Level) {deed : Deed} {answer : Callback} (hdoes : c.Does deed d answer) :
    ∃ e, c.noted.Does deed e answer ∧ (e = d ∨ e = d.noted ∧ d.Level) := by
  cases hdoes with
  | power on =>
      refine ⟨_, .power on, .inr ⟨?_, ?_⟩⟩
      · cases on <;> rfl
      · cases on with
        | true => exact ⟨h.cleared, h.unwritten, h.above⟩
        | false => exact ⟨register_of_cleared rfl _, h.unwritten, h.above⟩
  | write hpowered hwrite =>
      obtain ⟨e, hnoted, he⟩ := h.write hwrite
      exact ⟨e, .write hpowered hnoted, he⟩
  | read hpowered hread =>
      obtain ⟨e, hnoted, he⟩ := h.read hread
      exact ⟨e, .read hpowered hnoted, he⟩

/-- Whatever was noted makes no difference to a transcript. -/
theorem transcript (h : c.Level) (calls : List Call) :
    c.noted.transcript calls = c.transcript calls := by
  induction calls generalizing c with
  | nil => rfl
  | cons call rest ih =>
      cases hcall : c.call call with
      | none =>
          have hnoted : c.noted.call call = none :=
            call_of_refuses ((refuses_of_call hcall).of_powered rfl)
          rw [Chip.transcript, Chip.transcript, attempt_of_refused hcall, attempt_of_refused hnoted]
          rw [ih h]
      | some result =>
          obtain ⟨d, answer⟩ := result
          obtain ⟨deed, hdeed, hdoes⟩ := does_of_call hcall
          obtain ⟨e, hnoted, he⟩ := h.does hdoes
          rw [Chip.transcript, Chip.transcript, attempt_of_call hcall,
            attempt_of_call (call_of_does hdeed hnoted)]
          rcases he with rfl | ⟨rfl, hlevel⟩
          · rfl
          · rw [ih hlevel]

end Level

/-! ## Chips that answer alike -/

/-- Whatever calls are made, both chips give the same answers. -/
def Alike (c d : Chip) : Prop := ∀ calls, c.transcript calls = d.transcript calls

theorem Level.alike (h : c.Level) : c.noted.Alike c := h.transcript

namespace Alike

theorem attempt (h : c.Alike d) (call : Call) :
    (c.attempt call).1 = (d.attempt call).1 ∧ (c.attempt call).2.Alike (d.attempt call).2 := by
  have hcons := fun rest ↦ List.cons_eq_cons.mp (h (call :: rest))
  exact ⟨congrArg Prod.snd (hcons []).1, fun rest ↦ (hcons rest).2⟩

theorem after (h : c.Alike d) (calls : List Call) : (c.after calls).Alike (d.after calls) := by
  induction calls generalizing c d with
  | nil => exact h
  | cons call rest ih => exact ih (h.attempt call).2

theorem tuned (h : c.Alike d) (hc : c.powered = true) (hd : d.powered = true) :
    c.tuned.toRegister = d.tuned.toRegister := by
  have hanswer := (h.attempt (.vendor Register.accessOpcode
    [Register.frequency, Register.readAccess, 2])).1
  rw [attempt_read hc (.inr rfl) rfl, attempt_read hd (.inr rfl) rfl] at hanswer
  exact answerTo_inj (Option.some.inj hanswer)

theorem flags (h : c.Alike d) (hc : c.powered = true) (hd : d.powered = true)
    (hbusy : c.busyReads = d.busyReads) : c.flags = d.flags := by
  induction hreads : c.busyReads generalizing c d with
  | zero =>
      have hanswer := (h.attempt (.vendor Register.accessOpcode
        [Register.flags, Register.readAccess, 2])).1
      rw [attempt_read hc (.inr rfl) (read_flags hreads),
        attempt_read hd (.inr rfl) (read_flags (hbusy.symm.trans hreads))] at hanswer
      exact answerTo_inj (Option.some.inj hanswer)
  | succ reads ih =>
      -- The reads that find the search busy count it down on both sides.
      have hnext := (h.attempt (.vendor Register.accessOpcode
        [Register.flags, Register.readAccess, 2])).2
      have hpos : 0 < c.busyReads := by omega
      rw [attempt_read hc (.inr rfl) (read_busy hpos),
        attempt_read hd (.inr rfl) (read_busy (hbusy ▸ hpos))] at hnext
      dsimp only at hnext
      have hflags := ih hnext hc hd (congrArg (· - 1) hbusy) (congrArg (· - 1) hreads)
      exact hflags

end Alike

/-! ## Finding out -/

theorem attempt_write (hpowered : c.powered = true) {address byte : UInt8}
    (hwrite : c.write address byte.toUInt16 = some d) :
    c.attempt (.vendor Register.accessOpcode [address, Register.writeAccess, byte]) =
      (some (.vendor Register.confirmOpcode [0, address, Register.writeAccess]), d) := by
  have hdeed : Call.deed? (.vendor Register.accessOpcode [address, Register.writeAccess, byte]) =
      some (.write address byte.toUInt16) := by
    simp [Call.deed?, valueOf?_byte]
  exact attempt_of_call (call_of_does hdeed (.write hpowered hwrite))

/-- Calls for an upward search of a whole region, whatever the level. -/
def sweep (region : Region) : List Call :=
  [.vendor Register.accessOpcode
      [Register.fmControl, Register.writeAccess, Register.bandBits region.band],
    .vendor Register.accessOpcode [Register.searchControl, Register.writeAccess, Register.upBit],
    .vendor Register.accessOpcode
      [Register.searchTuneMode, Register.writeAccess, Register.autoSearch]]

/-- A chip that is called for a sweep searches the region from where it stands. -/
theorem sweep_rests (hpowered : c.powered = true)
    (hstations : c.stations = (ofSettings settings).stations) (region : Region) :
    let d := c.after (sweep region)
    d.Rests ⟨true, 0, c.search.start, c.frequencyWritten, region.band⟩ settings.stations ∧
      d.powered = true ∧ d.busyReads = c.searchPolls ∧ d.tuned.InRegister := by
  let selected := c.put Register.fmControl (by decide) (Register.bandBits region.band).toUInt16
  let told := selected.put Register.searchControl (by decide) Register.upBit.toUInt16
  have hcontrol : told.register Register.searchControl = Register.upBit.toUInt16 :=
    (register_put ..).trans (if_pos rfl)
  have hkept : ∀ address, address ≠ Register.searchControl → address ≠ Register.fmControl →
      told.register address = c.register address := fun address h h' ↦
    ((register_put ..).trans (if_neg h)).trans ((register_put ..).trans (if_neg h'))
  have hselected : told.register Register.fmControl = (Register.bandBits region.band).toUInt16 :=
    ((register_put ..).trans (if_neg (by decide))).trans ((register_put ..).trans (if_pos rfl))
  have hband : told.band = region.band := by
    rw [band, hselected]
    cases region <;> rfl
  have hsearch : told.search = ⟨true, 0, c.search.start, c.frequencyWritten, region.band⟩ := by
    rw [search, search, hcontrol, hkept _ (by decide) (by decide), hband]
    rfl
  obtain ⟨d, hwrite, hsearched⟩ := told.searched_of_write
    (show Register.autoSearch.toUInt16.toUInt8 = Register.autoSearch from rfl)
  have hfirst := attempt_write (d := selected) hpowered
    (write_plain (by decide) _ (by decide) (by decide))
  have hsecond := attempt_write (c := selected) (d := told) hpowered
    (write_plain (by decide) _ (by decide) (by decide))
  have hthird := attempt_write (c := told) hpowered hwrite
  have hafter : c.after (sweep region) = d := by
    rw [sweep, after_cons, hfirst, after_cons, hsecond, after_cons, hthird]
    rfl
  have hinRegister : d.tuned.InRegister := hsearched.inRegister rfl
  rw [hsearch] at hsearched
  rw [hafter]
  exact ⟨hsearched.rests hstations, hsearched.same.powered.trans hpowered, hsearched.busyReads,
    hinRegister⟩

/-- A station at or below the tuned frequency gives away that the register was written. -/
theorem noticed (hpowered : c.powered = true) (hunwritten : c.frequencyWritten = false)
    (hcleared : c.register Register.frequency = 0)
    (hstations : c.stations = (ofSettings settings).stations) {s : Transmitter}
    (hs : s ∈ settings.stations) (hreach : s.InReach) (hle : s.khz ≤ c.tuned.khz) :
    ¬ c.noted.Alike c := by
  intro halike
  obtain ⟨region, hmin, hmax⟩ := hreach
  obtain ⟨hrests, hon, hbusy, hregister⟩ := sweep_rests hpowered hstations region
  obtain ⟨hrests', hon', hbusy', hregister'⟩ :=
    sweep_rests (c := c.noted) hpowered hstations region
  have hstart : c.noted.search.start = ⟨64000⟩ := congrArg Freq.ofRegister hcleared
  have htuned : c.search.start = c.tuned := if_neg (by simp [hunwritten])
  rw [hstart] at hrests'
  rw [htuned, hunwritten] at hrests
  have hafter := halike.after (sweep region)
  have hsame : (c.noted.after (sweep region)).tuned = (c.after (sweep region)).tuned := by
    rw [← Freq.ofRegister_toRegister hregister', hafter.tuned hon' hon,
      Freq.ofRegister_toRegister hregister]
  have hflags := hafter.flags hon' hon (hbusy'.trans hbusy.symm)
  -- From the cleared register the station is found, or one below it.
  have hcandidate : Search.Candidate ⟨true, 0, ⟨64000⟩, true, region.band⟩ s :=
    ⟨fun _ ↦ (region.base_lt.trans_le hmin).le, by simp, by simp, by simp, hmin, hmax⟩
  obtain ⟨t, hstops, hrest, -, hok⟩ := hrests'.found ⟨s, hs, hcandidate⟩
  have hbelow : t.khz ≤ s.khz := hstops.up rfl s hs hcandidate
  by_cases hfound : ∃ u ∈ settings.stations,
      Search.Candidate ⟨true, 0, c.tuned, false, region.band⟩ u
  · obtain ⟨u, hu, hrest', -⟩ := hrests.found hfound
    have habove : c.tuned.khz ≤ u.khz := hu.candidate.up rfl
    have hne : u.khz ≠ c.tuned.khz := hu.candidate.beyond rfl
    have hkhz : t.khz = u.khz := congrArg Freq.khz (hrest.symm.trans (hsame.trans hrest'))
    omega
  · have hmissed := (hrests.missed fun u hu hq ↦ hfound ⟨u, hu, hq⟩).2
    rw [hflags, hmissed] at hok
    exact absurd hok (by decide)

/-- What a power cycle does not forget shows if and only if the frequency register was written since
the chip last tuned or searched, and some transmitter in reach is not above the tuned frequency. -/
theorem power_cycle_forgets_iff (settings : ChipSettings) (history : List Call) :
    let c := (ofSettings settings).after history
    (c.after [.power false, .power true]).Alike (fresh settings c.tuned) ↔
      (Deed.startGiven (Deed.confirmed ((ofSettings settings).transcript history)) = true →
        ∀ s ∈ settings.stations, s.InReach → c.tuned.khz < s.khz) := by
  intro c
  have hserves := (ofSettings settings).serves_after history
  have hcycled : c.after [.power false, .power true] = _ := cycled_eq hserves
  rw [hcycled]
  cases Deed.startGiven (Deed.confirmed ((ofSettings settings).transcript history)) with
  | false => exact iff_of_true (fun _ ↦ rfl) fun h ↦ absurd h Bool.false_ne_true
  | true =>
      have hcleared : (fresh settings c.tuned).register Register.frequency = 0 :=
        register_of_cleared rfl _
      constructor
      · intro halike _ s hs hreach
        by_contra hle
        exact noticed rfl rfl hcleared rfl hs hreach (Nat.le_of_not_lt hle) halike
      · intro habove
        have hlevel : (fresh settings c.tuned).Level :=
          ⟨hcleared, rfl, fun s hs ↦ habove rfl s (ChipSettings.mem_stations.mp hs)⟩
        exact hlevel.alike

/-- One of the transmitters is where a new chip is tuned. -/
def edged : ChipSettings where
  stations := [⟨87500, 60, false⟩, ⟨95800, 60, false⟩]
  searchPolls := 0

theorem ofSettings_edged :
    ofSettings edged = { stations := edged.stations, searchPolls := 0 } := by
  have hsorted : edged.stations.mergeSort (fun s t ↦ s.khz ≤ t.khz) = edged.stations :=
    List.mergeSort_of_pairwise (by decide)
  rw [ofSettings, hsorted]
  rfl

/-- A frequency that was written before the power cycle makes the next search find the station that
the chip is tuned to, where a new chip finds the next one. -/
theorem cycled_search_begins_on_cleared_register :
    let history := [Call.power true,
      .vendor Register.accessOpcode [Register.frequency, Register.writeAccess, 0x38, 0x7c]]
    let later := [Call.vendor Register.accessOpcode
        [Register.searchControl, Register.writeAccess, 0xa8],
      .vendor Register.accessOpcode
        [Register.searchTuneMode, Register.writeAccess, Register.autoSearch],
      .vendor Register.accessOpcode [Register.frequency, Register.readAccess, 2]]
    let c := (ofSettings edged).after history
    c.tuned = ⟨87500⟩ ∧
      ((c.after [.power false, .power true]).transcript later).getLast?.map Prod.snd =
        some (some (answerTo Register.frequency 2 (Freq.toRegister ⟨87500⟩))) ∧
      ((fresh edged c.tuned).transcript later).getLast?.map Prod.snd =
        some (some (answerTo Register.frequency 2 (Freq.toRegister ⟨95800⟩))) ∧
      ¬ (c.after [.power false, .power true]).Alike (fresh edged c.tuned) := by
  intro history later c
  have hcycled : ((c.after [.power false, .power true]).transcript later).getLast?.map Prod.snd =
      some (some (answerTo Register.frequency 2 (Freq.toRegister ⟨87500⟩))) := by
    simp only [c, history, ofSettings_edged]
    decide +kernel
  have hfresh : ((fresh edged c.tuned).transcript later).getLast?.map Prod.snd =
      some (some (answerTo Register.frequency 2 (Freq.toRegister ⟨95800⟩))) := by
    simp only [c, history, fresh, ofSettings_edged]
    decide +kernel
  refine ⟨rfl, hcycled, hfresh, fun halike ↦ ?_⟩
  rw [halike later, hfresh] at hcycled
  exact absurd hcycled (by decide)

end Chip

end FmTuner
