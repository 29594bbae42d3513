import FmTuner.Proofs.Channels

/-!
# Walks up a band

Whoever goes from channel to channel, one spacing at a time and as long as there is a next one, meets
every channel from the first one on, in ascending order, and no other frequency. The upper limit need
not be a channel. How many channels there are from one of them on is told by the number of spacings
that fit between it and the upper limit.
-/

namespace FmTuner.Band

/-- The frequencies that are met from one of them on, until there is no next one. -/
inductive Walk (b : Band) : Freq → List Freq → Prop where
  | last {f : Freq} (hnext : b.nextChannel f = .ok none) : Walk b f [f]
  | next {f g : Freq} {rest : List Freq} (hnext : b.nextChannel f = .ok (some g))
      (hrest : Walk b g rest) : Walk b f (f :: rest)

variable {b : Band} {f g : Freq} {channels : List Freq}

/-! ## The next channel -/

/-- What comes after a channel: one spacing further up there is a channel, or the band is at its
end. -/
theorem nextChannel_cases (hmax : b.max.khz + b.spacing < Word.limit) (hf : b.isValid f = true) :
    (f.khz + b.spacing ≤ b.max.khz ∧ b.isValid ⟨f.khz + b.spacing⟩ = true ∧
      b.nextChannel f = .ok (some ⟨f.khz + b.spacing⟩)) ∨
    (b.max.khz < f.khz + b.spacing ∧ b.nextChannel f = .ok none) := by
  have hrange : b.InRange := by
    obtain ⟨hmin, hle, -⟩ := isValid_iff.mp hf
    exact ⟨by omega, hmax⟩
  have hnext := nextChannel_of_isValid hrange hf
  by_cases hle : f.khz + b.spacing ≤ b.max.khz
  · exact .inl ⟨hle, isValid_next hf hle, hnext.trans (congrArg Except.ok (if_pos hle))⟩
  · exact .inr ⟨Nat.lt_of_not_le hle, hnext.trans (congrArg Except.ok (if_neg hle))⟩

/-- The next channel is the lowest one above, and there is none for the top channel only. -/
theorem nextChannel_least (hmax : b.max.khz + b.spacing < Word.limit) (hf : b.isValid f = true) :
    ∃ found, b.nextChannel f = .ok found ∧
      (∀ g, found = some g ↔ b.isValid g = true ∧ f.khz < g.khz ∧
        ∀ h, b.isValid h = true → f.khz < h.khz → g.khz ≤ h.khz) ∧
      (found = none ↔ ∀ g, b.isValid g = true → g.khz ≤ f.khz) := by
  obtain ⟨-, -, hspacing, -⟩ := isValid_iff.mp hf
  rcases nextChannel_cases hmax hf with ⟨hle, hvalid, hnext⟩ | ⟨hgt, hnext⟩
  · refine ⟨_, hnext, fun g ↦ ⟨?_, ?_⟩, ?_⟩
    · rintro ⟨⟩
      exact ⟨hvalid, Nat.lt_add_of_pos_right hspacing, fun h hh hlt ↦ spacing_le_of_lt hf hh hlt⟩
    · rintro ⟨hg, hlt, hleast⟩
      have hge := spacing_le_of_lt hf hg hlt
      have hkhz := hleast _ hvalid (Nat.lt_add_of_pos_right hspacing)
      exact congrArg (fun khz ↦ some (Freq.mk khz)) (Nat.le_antisymm hge hkhz)
    · refine ⟨by simp, fun hall ↦ ?_⟩
      have hkhz : f.khz + b.spacing ≤ f.khz := hall _ hvalid
      omega
  · have htop : ∀ g, b.isValid g = true → g.khz ≤ f.khz := by
      intro g hg
      by_contra hlt
      have hge := spacing_le_of_lt hf hg (Nat.lt_of_not_le hlt)
      have hlimit := (isValid_iff.mp hg).2.1
      omega
    refine ⟨none, hnext, fun g ↦ ⟨by simp, ?_⟩, by simpa using htop⟩
    rintro ⟨hg, hlt, -⟩
    exact absurd (htop g hg) (Nat.not_le_of_lt hlt)

/-! ## Walks -/

/-- From every channel a walk comes to its end. -/
theorem exists_walk (hmax : b.max.khz + b.spacing < Word.limit) (hf : b.isValid f = true) :
    ∃ channels, b.Walk f channels := by
  obtain ⟨-, -, hspacing, -⟩ := isValid_iff.mp hf
  -- Every step leaves less room below the upper limit.
  induction hroom : b.max.khz - f.khz using Nat.strong_induction_on generalizing f with
  | _ room ih =>
      rcases nextChannel_cases hmax hf with ⟨hle, hvalid, hnext⟩ | ⟨-, hnext⟩
      · have hless : b.max.khz - (f.khz + b.spacing) < room := by omega
        obtain ⟨rest, hrest⟩ := ih _ hless hvalid rfl
        exact ⟨f :: rest, .next hnext hrest⟩
      · exact ⟨[f], .last hnext⟩

/-- There is one walk at most. -/
theorem Walk.unique {others : List Freq} (h : b.Walk f channels) (hothers : b.Walk f others) :
    others = channels := by
  induction h generalizing others with
  | last hnext =>
      cases hothers with
      | last => rfl
      | next hother => simp [hnext] at hother
  | next hnext hrest ih =>
      cases hothers with
      | last hother => simp [hnext] at hother
      | next hother hothers =>
          cases hnext.symm.trans hother
          rw [ih hothers]

section

variable (hmax : b.max.khz + b.spacing < Word.limit)

include hmax

/-- A walk meets every channel from where it begins on, and nothing else. -/
theorem Walk.mem_iff (h : b.Walk f channels) (hf : b.isValid f = true) :
    g ∈ channels ↔ b.isValid g = true ∧ f.khz ≤ g.khz := by
  induction h with
  | @last f hnext =>
      rw [List.mem_singleton]
      obtain ⟨found, hfound, -, htop⟩ := nextChannel_least hmax hf
      cases hnext.symm.trans hfound
      constructor
      · rintro rfl
        exact ⟨hf, le_rfl⟩
      · intro ⟨hg, hle⟩
        exact congrArg Freq.mk (Nat.le_antisymm (htop.mp rfl g hg) hle)
  | @next f next rest hnext hrest ih =>
      obtain ⟨found, hfound, hleast, -⟩ := nextChannel_least hmax hf
      cases hnext.symm.trans hfound
      obtain ⟨hvalid, hlt, hbetween⟩ := (hleast next).mp rfl
      rw [List.mem_cons, ih hvalid]
      constructor
      · rintro (rfl | ⟨hg, hle⟩)
        · exact ⟨hf, le_rfl⟩
        · exact ⟨hg, hlt.le.trans hle⟩
      · intro ⟨hg, hle⟩
        rcases Nat.eq_or_lt_of_le hle with heq | hless
        · exact .inl (congrArg Freq.mk heq.symm)
        · exact .inr ⟨hg, hbetween g hg hless⟩

theorem Walk.sorted (h : b.Walk f channels) (hf : b.isValid f = true) :
    channels.Pairwise (·.khz < ·.khz) := by
  induction h with
  | last => exact List.pairwise_singleton _ _
  | @next f next rest hnext hrest ih =>
      obtain ⟨found, hfound, hleast, -⟩ := nextChannel_least hmax hf
      cases hnext.symm.trans hfound
      obtain ⟨hvalid, hlt, -⟩ := (hleast next).mp rfl
      refine List.pairwise_cons.mpr ⟨fun g hg ↦ ?_, ih hvalid⟩
      exact Nat.lt_of_lt_of_le hlt ((hrest.mem_iff hmax hvalid).mp hg).2

theorem Walk.length (h : b.Walk f channels) (hf : b.isValid f = true) :
    channels.length = (b.max.khz - f.khz) / b.spacing + 1 := by
  obtain ⟨-, -, hspacing, -⟩ := isValid_iff.mp hf
  induction h with
  | @last f hnext =>
      rcases nextChannel_cases hmax hf with ⟨-, -, hnext'⟩ | ⟨hgt, -⟩
      · simp [hnext] at hnext'
      · rw [Nat.div_eq_of_lt (by omega), List.length_singleton]
  | @next f next rest hnext hrest ih =>
      rcases nextChannel_cases hmax hf with ⟨hle, hvalid, hnext'⟩ | ⟨-, hnext'⟩
      · cases hnext.symm.trans hnext'
        have hroom : b.max.khz - f.khz = b.max.khz - (f.khz + b.spacing) + b.spacing := by omega
        rw [List.length_cons, ih hvalid, hroom, Nat.add_div_right _ hspacing]
      · simp [hnext] at hnext'

end

theorem channelCount_eq (hspacing : 0 < b.spacing) (hlimits : b.min.khz ≤ b.max.khz)
    (hmax : b.max.khz + b.spacing < Word.limit) :
    b.channelCount = .ok ((b.max.khz - b.min.khz) / b.spacing + 1) := by
  have hsteps := Nat.div_le_self (b.max.khz - b.min.khz) b.spacing
  have hsum : (b.max.khz - b.min.khz) / b.spacing + 1 < Word.limit := by omega
  simp only [channelCount, Nat.ne_of_gt hspacing, if_false, Word.sub_eq_ok hlimits,
    Word.add_eq_ok hsum, bind, Except.bind]

theorem isValid_min (hspacing : 0 < b.spacing) (hlimits : b.min.khz ≤ b.max.khz) :
    b.isValid b.min = true :=
  isValid_iff.mpr ⟨le_rfl, hlimits, hspacing, by rw [Nat.sub_self, Nat.zero_mod]⟩

/-- Going from the lower limit of a band to the next channel, again and again, comes to an end. What
was met are exactly the channels, in strictly ascending order, as many as the count says. From any of
them the next channel is the lowest one above, and only the top channel has none. -/
theorem walk_meets_every_channel (hspacing : 0 < b.spacing) (hlimits : b.min.khz ≤ b.max.khz)
    (hmax : b.max.khz + b.spacing < Word.limit) :
    (∃ channels, b.Walk b.min channels ∧ (∀ others, b.Walk b.min others → others = channels) ∧
      (∀ f, f ∈ channels ↔ b.isValid f = true) ∧ channels.Pairwise (·.khz < ·.khz) ∧
      b.channelCount = .ok channels.length) ∧
    ∀ f, b.isValid f = true → ∃ found, b.nextChannel f = .ok found ∧
      (∀ g, found = some g ↔ b.isValid g = true ∧ f.khz < g.khz ∧
        ∀ h, b.isValid h = true → f.khz < h.khz → g.khz ≤ h.khz) ∧
      (found = none ↔ ∀ g, b.isValid g = true → g.khz ≤ f.khz) := by
  have hmin := isValid_min hspacing hlimits
  obtain ⟨channels, hwalk⟩ := exists_walk hmax hmin
  refine ⟨⟨channels, hwalk, fun others ↦ hwalk.unique, fun f ↦ ?_, hwalk.sorted hmax hmin, ?_⟩,
    fun f ↦ nextChannel_least hmax⟩
  · rw [hwalk.mem_iff hmax hmin]
    exact ⟨And.left, fun hf ↦ ⟨hf, (isValid_iff.mp hf).1⟩⟩
  · rw [channelCount_eq hspacing hlimits hmax, hwalk.length hmax hmin]

/-- A band whose limits are not a whole number of spacings apart. -/
def uneven : Band := ⟨⟨100⟩, ⟨260⟩, 50, .europeUs⟩

theorem uneven_walk_has_four_channels :
    ∃ channels, uneven.Walk ⟨100⟩ channels ∧ channels.length = 4 ∧ ⟨260⟩ ∉ channels ∧
      uneven.nextChannel ⟨250⟩ = .ok none ∧ ∀ g, uneven.isValid g = true → g.khz ≤ 250 := by
  obtain ⟨⟨channels, hwalk, -, hmem, -, hcount⟩, hnext⟩ :=
    walk_meets_every_channel (b := uneven) (by decide) (by decide) (by decide)
  have hfour : uneven.channelCount = .ok 4 := by decide
  have hnone : uneven.nextChannel ⟨250⟩ = .ok none := by decide
  obtain ⟨found, hfound, -, htop⟩ := hnext ⟨250⟩ (by decide)
  cases hnone.symm.trans hfound
  refine ⟨channels, hwalk, ?_, ?_, hnone, htop.mp rfl⟩
  · rw [hcount] at hfour
    exact Except.ok.inj hfour
  · rw [hmem]
    decide

end FmTuner.Band
