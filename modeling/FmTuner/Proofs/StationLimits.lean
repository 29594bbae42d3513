import FmTuner.Proofs.Checks

/-!
# Station limits

A configuration that limits the stations of a full scan to more than its band has channels is not
accepted. The band that is started can be another one, which the options name. The limit is not held
against that band, and may exceed its channels unless it is the widest of all.
-/

namespace FmTuner

/-! ## Channels of the presets -/

namespace Band

theorem channelCount_presets :
    europeUs.channelCount = .ok 206 ∧ us.channelCount = .ok 101 ∧ japan.channelCount = .ok 141 := by
  decide

theorem cases_preset {b : Band} (h : b ∈ presets) : b = europeUs ∨ b = us ∨ b = japan := by
  simpa [presets] using h

theorem exists_channels {b : Band} (h : b ∈ presets) :
    ∃ channels, b.channelCount = .ok channels := by
  obtain ⟨heurope, hus, hjapan⟩ := channelCount_presets
  rcases cases_preset h with rfl | rfl | rfl
  exacts [⟨_, heurope⟩, ⟨_, hus⟩, ⟨_, hjapan⟩]

/-- Whether a limit fits a preset comes down to three numbers. -/
theorem le_channels_iff {b : Band} (h : b ∈ presets) {limit channels : Nat} (hlimit : limit ≤ 206)
    (hchannels : b.channelCount = .ok channels) :
    limit ≤ channels ↔ b = europeUs ∨ b = japan ∧ limit ≤ 141 ∨ limit ≤ 101 := by
  obtain ⟨heurope, hus, hjapan⟩ := channelCount_presets
  rcases cases_preset h with rfl | rfl | rfl
  · cases heurope.symm.trans hchannels
    exact iff_of_true hlimit (.inl rfl)
  · cases hus.symm.trans hchannels
    have hne : us ≠ europeUs ∧ us ≠ japan := by decide
    simp [hne]
  · cases hjapan.symm.trans hchannels
    have hne : japan ≠ europeUs := by decide
    simp only [hne, true_and, false_or]
    omega

end Band

/-! ## The limit of a service -/

theorem Config.Valid.le_channels {c : Config} {band : Band} (h : c.Valid band) {channels : Nat}
    (hchannels : band.channelCount = .ok channels) : c.timing.maxStations ≤ channels := by
  simpa [hchannels, Except.toOption] using h.limit

namespace Service

theorem timing_launch (registry : Registry Backend.Factory) (settings : ServiceSettings) :
    (launch registry settings).receiver.radio.timing = settings.timing := by
  rw [launch]
  split <;> rfl

variable {o : Options} {c : Config} {registry : Registry Backend.Factory} {s : Startup}

/-- The limit that a new service works with fits the band to be started if no option names the band.
If one does, it fits only if the band is the widest one or the limit is small enough for it. -/
theorem station_limit_fits_iff (hvalid : c.validate = .ok ())
    (hresolve : Startup.resolve o c registry = .ok s) :
    ∃ channels, s.band.channelCount = .ok channels ∧
      ((launch registry (s.serviceSettings c)).receiver.radio.timing.maxStations ≤ channels ↔
        o.band = none ∨ s.band = Band.europeUs ∨
          s.band = Band.japan ∧ c.timing.maxStations ≤ 141 ∨ c.timing.maxStations ≤ 101) := by
  obtain ⟨band, hconfig⟩ := Config.validate_eq_ok.mp hvalid
  have hfits := Startup.resolve_eq_ok.mp hresolve
  have hpreset := Band.ofName_mem_presets hfits.band
  obtain ⟨channels, hchannels⟩ := Band.exists_channels hpreset
  have hlimit : (launch registry (s.serviceSettings c)).receiver.radio.timing.maxStations =
      c.timing.maxStations := congrArg Timing.maxStations (timing_launch ..)
  refine ⟨channels, hchannels, ?_⟩
  rw [hlimit]
  cases hoption : o.band with
  | none =>
      -- The band is then the one that the limit was checked against.
      have hband : s.band = band := by
        have hnamed := hfits.band
        rw [hoption, Option.getD_none, hconfig.named] at hnamed
        exact (Except.ok.inj hnamed).symm
      exact iff_of_true (hconfig.le_channels (hband ▸ hchannels)) (.inl rfl)
  | some name =>
      simpa using Band.le_channels_iff hpreset hconfig.maxStations_le hchannels

theorem limit_fits_japan :
    let c : Config := { timing := { maxStations := 141 } }
    let o : Options := { band := some "japan" }
    let s : Startup := ⟨"sim", .japan⟩
    c.validate = .ok () ∧ Startup.resolve o c Backend.builtin = .ok s ∧
      ∃ channels, s.band.channelCount = .ok channels ∧
        (launch Backend.builtin (s.serviceSettings c)).receiver.radio.timing.maxStations ≤
          channels := by
  intro c o s
  have hvalid : c.validate = .ok () := by decide +kernel
  have hresolve : Startup.resolve o c Backend.builtin = .ok s := by decide +kernel
  obtain ⟨channels, hchannels, hfits⟩ := station_limit_fits_iff hvalid hresolve
  exact ⟨hvalid, hresolve, channels, hchannels, hfits.mpr (by decide)⟩

/-- An option that names a narrow band leaves the limit of the configured one in place. -/
theorem limit_exceeds_us :
    let c : Config := { timing := { maxStations := 102 } }
    let o : Options := { band := some "us" }
    let s : Startup := ⟨"sim", .us⟩
    c.validate = .ok () ∧ Startup.resolve o c Backend.builtin = .ok s ∧
      s.band.channelCount = .ok 101 ∧
      101 < (launch Backend.builtin (s.serviceSettings c)).receiver.radio.timing.maxStations :=
  ⟨by decide +kernel, by decide +kernel, by decide, by rw [timing_launch]; decide⟩

end Service

end FmTuner
