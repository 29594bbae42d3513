import FmTuner.Proofs.Channels

/-!
# Rounding to channels

The points that lie a whole number of spacings from the lower limit of a band, above or below it,
make up a grid that has no end. A frequency is rounded to the nearest of these points, and to the
upper one where two are equally near. If that point lies within the limits it is a channel, and
otherwise there is no channel to round to.
-/

namespace FmTuner.Band

variable {b : Band} {raw f : Freq} {g h : Int}

/-! ## The nearest point of the grid -/

/-- A point of the grid without end. -/
def point (b : Band) (k : Int) : Int := b.min.khz + k * b.spacing

/-- A point of the grid than which none is nearer to a frequency, and none above it as near. -/
structure Nearest (b : Band) (raw : Freq) (g : Int) : Prop where
  onGrid : ∃ k, g = b.point k
  closest : ∀ k, (g - raw.khz).natAbs ≤ (b.point k - raw.khz).natAbs
  ties : ∀ k, (b.point k - raw.khz).natAbs = (g - raw.khz).natAbs → b.point k ≤ g

theorem Nearest.unique (hg : b.Nearest raw g) (hh : b.Nearest raw h) : h = g := by
  obtain ⟨i, hi⟩ := hg.onGrid
  obtain ⟨j, hj⟩ := hh.onGrid
  have heq : (h - raw.khz).natAbs = (g - raw.khz).natAbs := by
    apply Nat.le_antisymm
    · exact hi ▸ hh.closest i
    · exact hj ▸ hg.closest j
  apply Int.le_antisymm
  · exact hj ▸ hg.ties j (hj ▸ heq)
  · exact hi ▸ hh.ties i (hi ▸ heq.symm)

theorem point_succ_le {i j : Int} (h : i < j) : b.point i + b.spacing ≤ b.point j := by
  have hsteps : (i + 1) * b.spacing ≤ j * b.spacing :=
    Int.mul_le_mul_of_nonneg_right h (Int.natCast_nonneg _)
  rw [Int.add_mul, Int.one_mul] at hsteps
  simp only [point]
  omega

/-- The number of steps from the lower limit to where a frequency is rounded to. -/
def steps (b : Band) (raw : Freq) : Int := (raw.khz + b.spacing / 2 - b.min.khz) / b.spacing

/-- A frequency lies at most half a spacing below the point it is rounded to, and less than half a
spacing above it. -/
theorem point_steps_bounds (raw : Freq) (hspacing : 0 < b.spacing) :
    b.point (b.steps raw) ≤ raw.khz + b.spacing / 2 ∧
      (raw.khz : Int) + b.spacing / 2 < b.point (b.steps raw) + b.spacing := by
  have hpos : (0 : Int) < b.spacing := Int.natCast_pos.mpr hspacing
  have hfloor := Int.mul_ediv_add_emod (raw.khz + b.spacing / 2 - b.min.khz : Int) b.spacing
  have hlow := Int.emod_nonneg (raw.khz + b.spacing / 2 - b.min.khz : Int) (Int.ne_of_gt hpos)
  have hhigh := Int.emod_lt_of_pos (raw.khz + b.spacing / 2 - b.min.khz : Int) hpos
  rw [Int.mul_comm] at hfloor
  simp only [point, steps]
  omega

theorem nearest_point_steps (raw : Freq) (hspacing : 0 < b.spacing) :
    b.Nearest raw (b.point (b.steps raw)) := by
  obtain ⟨hlow, hhigh⟩ := point_steps_bounds raw hspacing
  have hfar : ∀ k, b.point k = b.point (b.steps raw) ∨
      b.point k + b.spacing ≤ b.point (b.steps raw) ∨
        b.point (b.steps raw) + b.spacing ≤ b.point k := by
    intro k
    rcases Int.lt_trichotomy k (b.steps raw) with hlt | rfl | hlt
    · exact .inr (.inl (point_succ_le hlt))
    · exact .inl rfl
    · exact .inr (.inr (point_succ_le hlt))
  refine ⟨⟨_, rfl⟩, fun k ↦ ?_, fun k htie ↦ ?_⟩
  · have hk := hfar k
    omega
  · have hk := hfar k
    omega

theorem Nearest.le_half (hspacing : 0 < b.spacing) (hg : b.Nearest raw g) :
    (g - raw.khz).natAbs ≤ b.spacing / 2 := by
  obtain ⟨hlow, hhigh⟩ := point_steps_bounds raw hspacing
  rw [← hg.unique (nearest_point_steps raw hspacing)]
  omega

theorem Nearest.mono (hspacing : 0 < b.spacing) (hg : b.Nearest raw g) (hh : b.Nearest f h)
    (hle : raw.khz ≤ f.khz) : g ≤ h := by
  rw [← hg.unique (nearest_point_steps raw hspacing), ← hh.unique (nearest_point_steps f hspacing)]
  have hsteps : b.steps raw ≤ b.steps f :=
    Int.ediv_le_ediv (Int.natCast_pos.mpr hspacing) (by omega)
  rcases Int.lt_or_eq_of_le hsteps with hlt | heq
  · have hpoint := point_succ_le (b := b) hlt
    omega
  · exact Int.le_of_eq (congrArg b.point heq)

/-! ## Rounding -/

theorem isValid_of_point {k : Int} (hspacing : 0 < b.spacing) (hk : (f.khz : Int) = b.point k) :
    b.isValid f = true ↔ b.min.khz ≤ f.khz ∧ f.khz ≤ b.max.khz := by
  refine isValid_iff.trans ⟨fun hf ↦ ⟨hf.1, hf.2.1⟩, fun hf ↦ ⟨hf.1, hf.2, hspacing, ?_⟩⟩
  apply Nat.mod_eq_zero_of_dvd
  apply Int.natCast_dvd_natCast.mp
  refine ⟨k, ?_⟩
  rw [Int.ofNat_sub hf.1, hk, point, Int.mul_comm]
  omega

theorem rounded_eq_point (hmin : b.min.khz ≤ raw.khz + b.spacing / 2) :
    ((b.rounded raw).khz : Int) = b.point (b.steps raw) := by
  have hoffset : ((raw.khz + b.spacing / 2 - b.min.khz : Nat) : Int) =
      raw.khz + b.spacing / 2 - b.min.khz := by omega
  simp only [rounded, point, steps, ← hoffset]
  push_cast
  rfl

theorem snap_nearest (hspacing : 0 < b.spacing) (hraw : raw.khz + b.spacing / 2 < Word.limit)
    (hg : b.Nearest raw g) :
    b.snap raw = .ok (if b.min.khz ≤ g ∧ g ≤ b.max.khz then some ⟨g.toNat⟩ else none) := by
  obtain ⟨hlow, -⟩ := point_steps_bounds raw hspacing
  rw [← hg.unique (nearest_point_steps raw hspacing), snap_eq raw hspacing hraw]
  by_cases hmin : b.min.khz ≤ raw.khz + b.spacing / 2
  · have hpoint := rounded_eq_point hmin
    have hkhz : b.rounded raw = ⟨(b.point (b.steps raw)).toNat⟩ := by
      rw [← hpoint, Int.toNat_natCast]
    have hfits : b.min.khz ≤ raw.khz + b.spacing / 2 ∧ b.isValid (b.rounded raw) = true ↔
        b.min.khz ≤ b.point (b.steps raw) ∧ b.point (b.steps raw) ≤ b.max.khz := by
      rw [isValid_of_point hspacing hpoint, ← hpoint]
      simp [hmin]
    exact congrArg Except.ok (if_congr hfits (congrArg some hkhz) rfl)
  · -- Half a spacing below the lower limit the nearest point lies below it, too.
    rw [if_neg fun h ↦ hmin h.1, if_neg (by omega)]

theorem nearest_of_snap (h : b.snap raw = .ok (some f)) : b.Nearest raw f.khz := by
  obtain ⟨hspacing, hraw⟩ := lt_limit_of_snap h
  have hnearest := nearest_point_steps raw hspacing
  rw [snap_nearest hspacing hraw hnearest] at h
  split at h
  next hfits =>
    cases h
    rw [Int.toNat_of_nonneg (by omega)]
    exact hnearest
  next => cases h

/-- A frequency is rounded to the one point of the grid that is nearest to it, the upper of two, if
that lies within the limits. So what is rounded to itself are the channels. Whatever a frequency is
rounded to is a channel, at most half a spacing away, that is rounded to itself if it can be rounded
at all, and from a higher frequency rounding leads to no lower channel. -/
theorem snap_is_nearest_channel (hspacing : 0 < b.spacing)
    (hraw : raw.khz + b.spacing / 2 < Word.limit) :
    (∃ g, b.Nearest raw g ∧ (∀ h, b.Nearest raw h → h = g) ∧
      b.snap raw = .ok (if b.min.khz ≤ g ∧ g ≤ b.max.khz then some ⟨g.toNat⟩ else none)) ∧
    (b.snap raw = .ok (some raw) ↔ b.isValid raw = true) ∧
    ∀ f, b.snap raw = .ok (some f) →
      b.isValid f = true ∧ ((f.khz : Int) - raw.khz).natAbs ≤ b.spacing / 2 ∧
      (f.khz + b.spacing / 2 < Word.limit → b.snap f = .ok (some f)) ∧
      ∀ higher f' : Freq, raw.khz ≤ higher.khz → b.snap higher = .ok (some f') →
        f.khz ≤ f'.khz := by
  have hnearest := nearest_point_steps raw hspacing
  refine ⟨⟨_, hnearest, fun h hh ↦ hnearest.unique hh, snap_nearest hspacing hraw hnearest⟩,
    ⟨isValid_of_snap, snap_of_isValid_of_lt hraw⟩, fun f hf ↦ ?_⟩
  have hvalid := isValid_of_snap hf
  refine ⟨hvalid, (nearest_of_snap hf).le_half hspacing, fun hshift ↦ ?_, ?_⟩
  · exact snap_of_isValid_of_lt hshift hvalid
  · intro higher f' hle hf'
    apply Int.ofNat_le.mp
    exact (nearest_of_snap hf).mono hspacing (nearest_of_snap hf') hle

/-- A band whose upper limit lies between two points of its grid, closer to the lower one. -/
def clipped : Band := ⟨⟨100⟩, ⟨114⟩, 6, .japan⟩

/-- Of two points that are equally near the upper one counts, even if only the lower one is a
channel. -/
theorem tie_above_limit_has_no_channel :
    clipped.Nearest ⟨115⟩ 118 ∧ clipped.isValid ⟨112⟩ = true ∧
      clipped.snap ⟨115⟩ = .ok none := by
  have hpoint : clipped.Nearest ⟨115⟩ 118 := nearest_point_steps ⟨115⟩ (by decide)
  obtain ⟨⟨g, -, hunique, hsnap⟩, -⟩ :=
    @snap_is_nearest_channel clipped ⟨115⟩ (by decide) (by decide)
  have hg : 118 = g := hunique 118 hpoint
  subst hg
  exact ⟨hpoint, by decide, hsnap⟩

end FmTuner.Band
