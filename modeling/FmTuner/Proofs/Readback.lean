import FmTuner.Proofs.Tuning

/-!
# Reading back

A frequency reaches the chip as a word that counts from the base of its register. There it is put
into the register, taken out by the order to tune, told as a word again when it is read, and rounded
to the band. A channel that the register can express comes through all of this unchanged. It is also
where a search begins that is ordered instead.
-/

namespace FmTuner

/-! ## Words -/

namespace Freq

theorem toRegister_ofRegister (raw : UInt16) : (ofRegister raw).toRegister = raw := by
  have hlt : raw.toNat < 65536 := raw.toNat_lt
  apply UInt16.toNat_inj.mp
  simp only [toRegister, ofRegister, Nat.add_sub_cancel, UInt16.toNat_ofNat']
  omega

theorem inRegister_ofRegister (raw : UInt16) : (ofRegister raw).InRegister := by
  have hlt : raw.toNat < 65536 := raw.toNat_lt
  simp only [InRegister, ofRegister, registerBase]
  omega

/-- What the register cannot express comes back as something else. -/
theorem ofRegister_toRegister_iff {f : Freq} : ofRegister f.toRegister = f ↔ f.InRegister :=
  ⟨fun h ↦ h ▸ inRegister_ofRegister f.toRegister, ofRegister_toRegister⟩

end Freq

theorem Band.snap_of_inRegister {b : Band} (hb : b.FitsWords) {f : Freq} (hf : f.InRegister)
    (hvalid : b.isValid f = true) : b.snap f = .ok (some f) := by
  have hspacing := hb.spacing
  have hmax := hf.2
  have hlimit : Word.limit = 4294967296 := rfl
  exact snap_of_isValid_of_lt (by omega) hvalid

/-! ## Searches -/

namespace Chip

variable {c : Chip} {f : Freq}

/-- The search that the registers ask for, begun on a frequency and counting a station there. -/
def searchOn (c : Chip) (f : Freq) : Search :=
  { c.search with start := f, inclusive := true }

theorem ahead_searchOn (s : Transmitter) :
    (c.searchOn f).ahead s = true ↔ if c.search.up then f.khz ≤ s.khz else s.khz ≤ f.khz := by
  cases hup : c.search.up <;> simp [searchOn, Search.ahead, hup] <;> omega

theorem obeys_autoSearch (hpowered : c.powered = true) (hf : f.InRegister) :
    ∃ d, c.Obeys [.writeFrequency f, .writeByte Register.searchTuneMode Register.autoSearch] d ∧
      c.Searched (c.searchOn f) d := by
  obtain ⟨told, hwrite, htold, hwritten, hstart, hothers⟩ := c.write_frequency hf
  obtain ⟨d, hmode, hsearched⟩ :=
    told.searched_of_write (show Register.autoSearch.toUInt16.toUInt8 = _ from rfl)
  have hcontrol : told.register Register.searchControl = c.register Register.searchControl :=
    hothers _ (by decide)
  have hsearch : told.search = c.searchOn f := by
    simp only [search, searchOn, hcontrol, hwritten, hstart, htold.band, if_true]
  rw [hsearch] at hsearched
  refine ⟨d, .writeFrequency hpowered hwrite ?_, .of_same htold hsearched⟩
  exact .writeByte (htold.powered.trans hpowered) hmode (.nil _)

end Chip

/-- A word names a frequency that is told as the same word, and a frequency comes back from its word
exactly if the register can express it. Hence a chip that is told to tune to a channel is tuned to
that channel, and answers with it; and if it is told to search instead, the search begins on that
channel, which counts itself. -/
theorem channel_comes_back :
    (∀ raw : UInt16, (Freq.ofRegister raw).toRegister = raw) ∧
    (∀ f : Freq, Freq.ofRegister f.toRegister = f ↔ 64000 ≤ f.khz ∧ f.khz ≤ 129535) ∧
    ∀ (b : Band) (f : Freq) (c : Chip), b.FitsWords → 64000 ≤ b.min.khz → b.max.khz ≤ 129535 →
      b.isValid f = true → c.powered = true →
        (∃ d, c.Obeys [.writeFrequency f, .writeByte Register.searchTuneMode Register.preset] d ∧
          d.tuned = f ∧ d.Answers b .readFrequency d
            (.read Register.frequency 2 .frequency (some (.frequency f))) .success) ∧
        ∃ d, c.Obeys [.writeFrequency f, .writeByte Register.searchTuneMode Register.autoSearch] d ∧
          c.Searched (c.searchOn f) d ∧
            ∀ s, (c.searchOn f).ahead s = true ↔
              if c.search.up then f.khz ≤ s.khz else s.khz ≤ f.khz := by
  refine ⟨Freq.toRegister_ofRegister, fun f ↦ Freq.ofRegister_toRegister_iff, ?_⟩
  intro b f c hb hmin hmax hvalid hpowered
  have hf : f.InRegister := Band.InRegister.of_isValid ⟨hmin, hmax⟩ hvalid
  obtain ⟨d, hobeys, hsame, htuned, -⟩ := Chip.obeys_tuneCommands hpowered hf
  obtain ⟨e, hsearches, hsearched⟩ := Chip.obeys_autoSearch hpowered hf
  refine ⟨⟨d, hobeys, htuned, ?_⟩, e, hsearches, hsearched, Chip.ahead_searchOn⟩
  subst htuned
  exact Chip.answers_frequency (hsame.powered.trans hpowered) b hf
    (Band.snap_of_inRegister hb hf hvalid)

/-- A chip that is on and set to search downwards, with two stations. -/
def Chip.downwards : Chip where
  stations := [⟨91500, 30, false⟩, ⟨95800, 62, true⟩]
  searchPolls := 1
  powered := true

theorem station_comes_back :
    (∃ d, Chip.downwards.Obeys
        [.writeFrequency ⟨95800⟩, .writeByte Register.searchTuneMode Register.preset] d ∧
      d.tuned = ⟨95800⟩ ∧ d.Answers .europeUs .readFrequency d
        (.read Register.frequency 2 .frequency (some (.frequency ⟨95800⟩))) .success) ∧
    ∃ d, Chip.downwards.Obeys
        [.writeFrequency ⟨95800⟩, .writeByte Register.searchTuneMode Register.autoSearch] d ∧
      d.tuned = ⟨95800⟩ ∧ d.busyReads = 1 := by
  obtain ⟨htunes, d, hobeys, hsearched, -⟩ :=
    channel_comes_back.2.2 .europeUs ⟨95800⟩ Chip.downwards (by decide) (by decide) (by decide)
      (by decide) rfl
  have hfound : (Chip.downwards.searchOn ⟨95800⟩).find? Chip.downwards.stations =
      some ⟨95800, 62, true⟩ := by decide
  exact ⟨htunes, d, hobeys, (hsearched.found _ hfound).1, hsearched.busyReads⟩

end FmTuner
