import FmTuner.Proofs.Reception
import FmTuner.Startup

/-!
# What is checked before the radio is switched on

A service relies on what the checks of the configuration and of the options have made sure of.
`Config.Valid` is what `Config.validate` accepts, and `Startup.Fits` what a merge of options and
configuration comes to.
-/

namespace FmTuner

section

variable {ε δ α β : Type}

theorem then_eq_ok {x : Except ε Unit} {f : Unit → Except ε β} {b : β} :
    (x >>= f) = .ok b ↔ x = .ok () ∧ f () = .ok b :=
  bind_eq_ok.trans ⟨fun ⟨(), h⟩ ↦ h, fun h ↦ ⟨(), h⟩⟩

theorem mapError_eq_ok {x : Except ε α} {f : ε → δ} {a : α} :
    x.mapError f = .ok a ↔ x = .ok a := by
  cases x <;> simp [Except.mapError]

end

/-! ## Configurations -/

structure Timing.Valid (t : Timing) : Prop where
  startTimeout : t.startTimeout ≠ 0
  resetTimeout : t.resetTimeout ≠ 0
  propertyTimeout : t.propertyTimeout ≠ 0
  settleDelay : t.settleDelay < t.startTimeout
  pollInterval : t.pollInterval ≠ 0
  maxStations : t.maxStations ≠ 0

/-- A configuration that can be used, and the band that it names. -/
structure Config.Valid (c : Config) (band : Band) : Prop where
  logLevel : ∀ level, c.logLevel = some level → level ∈ levelNames
  backend : Text.trim c.backend ≠ ""
  named : Band.ofName c.bandName = .ok band
  timing : c.timing.Valid
  limit : c.timing.maxStations ≤ band.channelCount.toOption.getD 0
  stations : ∀ s ∈ c.chip.stations, s.khz ≠ 0

namespace Config

variable {c : Config}

theorem ensure_eq_ok {condition : Bool} {fault : ConfigFault} :
    ensure condition fault = .ok () ↔ condition = true := by
  cases condition <;> simp [ensure]

theorem validateLogLevel_eq_ok :
    c.validateLogLevel = .ok () ↔ ∀ level, c.logLevel = some level → level ∈ levelNames := by
  cases hlevel : c.logLevel <;> simp [validateLogLevel, hlevel, ensure_eq_ok]

theorem validateTiming_eq_ok {t : Timing} : validateTiming t = .ok () ↔ t.Valid := by
  simp only [validateTiming, then_eq_ok, ensure_eq_ok, decide_eq_true_eq]
  exact ⟨fun ⟨h₁, h₂, h₃, h₄, h₅, h₆⟩ ↦ ⟨h₁, h₂, h₃, h₄, h₅, h₆⟩,
    fun ⟨h₁, h₂, h₃, h₄, h₅, h₆⟩ ↦ ⟨h₁, h₂, h₃, h₄, h₅, h₆⟩⟩

theorem validateStations_eq_ok {stations : List Transmitter} :
    validateStations stations = .ok () ↔ ∀ s ∈ stations, s.khz ≠ 0 := by
  cases hsilent : stations.findIdx? fun s ↦ s.khz = 0 with
  | none =>
      rw [validateStations, hsilent]
      simpa using hsilent
  | some index =>
      obtain ⟨hlt, hzero, -⟩ := List.findIdx?_eq_some_iff_getElem.mp hsilent
      simp only [validateStations, hsilent, reduceCtorEq, false_iff, not_forall, not_not]
      exact ⟨_, List.getElem_mem hlt, by simpa using hzero⟩

theorem validate_eq_ok : c.validate = .ok () ↔ ∃ band, c.Valid band := by
  rw [validate, then_eq_ok, then_eq_ok, bind_eq_ok]
  simp only [then_eq_ok, ensure_eq_ok, validateLogLevel_eq_ok, validateTiming_eq_ok, validateLimit,
    validateStations_eq_ok, band, mapError_eq_ok, decide_eq_true_eq]
  exact ⟨fun ⟨h₁, h₂, band, h₃, h₄, h₅, h₆⟩ ↦ ⟨band, h₁, h₂, h₃, h₄, h₅, h₆⟩,
    fun ⟨band, h₁, h₂, h₃, h₄, h₅, h₆⟩ ↦ ⟨h₁, h₂, band, h₃, h₄, h₅, h₆⟩⟩

/-- No band has more channels than the one of Europe. -/
theorem Valid.maxStations_le {band : Band} (h : c.Valid band) : c.timing.maxStations ≤ 206 := by
  have hchannels : ∀ b ∈ Band.presets, b.channelCount.toOption.getD 0 ≤ 206 := by decide
  exact h.limit.trans (hchannels band (Band.ofName_mem_presets h.named))

end Config

/-! ## Options -/

namespace Startup

/-- What options and configuration have been merged into: a registered backend, and the band that
the options name or else the configuration, with the frequency to tune to among its channels. -/
structure Fits {α : Type} (s : Startup) (o : Options) (c : Config) (registry : Registry α) :
    Prop where
  backend : s.backend = Backend.key (o.backend.getD c.backend)
  registered : registry.isRegistered s.backend = true
  band : Band.ofName (o.band.getD c.bandName) = .ok s.band
  tune : ∀ khz, o.tune = some khz → s.band.isValid ⟨khz⟩ = true

variable {α : Type} {o : Options} {c : Config} {registry : Registry α} {s : Startup}

theorem chooseBand_eq_ok {b : Band} :
    chooseBand o c = .ok b ↔ Band.ofName (o.band.getD c.bandName) = .ok b := by
  cases hband : o.band <;> simp [chooseBand, hband, Config.band, mapError_eq_ok]

theorem resolve_eq_ok : resolve o c registry = .ok s ↔ s.Fits o c registry := by
  constructor
  · intro h
    simp only [resolve] at h
    split at h
    next => cases h
    next hregistered =>
      rw [Bool.not_eq_true', Bool.not_eq_false] at hregistered
      obtain ⟨band, hband, h⟩ := bind_eq_ok.mp h
      rw [chooseBand_eq_ok] at hband
      split at h
      next khz htune =>
        split at h
        next hchannel =>
          cases h
          refine ⟨rfl, hregistered, hband, fun _ hkhz ↦ ?_⟩
          cases htune.symm.trans hkhz
          exact hchannel
        next => cases h
      next htune =>
        cases h
        exact ⟨rfl, hregistered, hband, by simp [htune]⟩
  · intro ⟨hbackend, hregistered, hband, htune⟩
    rw [hbackend] at hregistered
    simp only [resolve, hregistered, Bool.not_true, Bool.false_eq_true, if_false, bind_eq_ok]
    refine ⟨s.band, chooseBand_eq_ok.mpr hband, ?_⟩
    cases hkhz : o.tune with
    | none => simp [← hbackend]
    | some khz => simp [htune khz hkhz, ← hbackend]

end Startup

theorem Backend.find?_builtin {name : String} (h : builtin.isRegistered name = true) :
    builtin.find? name = some simulated := by
  have hfind : builtin.find? name = [(key "sim", simulated)].lookup (key name) := rfl
  rw [Registry.isRegistered] at h
  rw [hfind, List.lookup_cons] at h ⊢
  split at h
  next => rfl
  next => cases h

end FmTuner
