import FmTuner.Proofs.Circuit
import Mathlib.Data.List.Induction

/-!
# The mute

A pause mutes the sound, a resume and a start unmute it. A scan may begin while the radio is
paused, and ends with the radio started; it says nothing about the mute, which is then still on.
-/

namespace FmTuner

/-- The radio was paused, and neither resumed nor started since. -/
def Journal.PausedSince (j : Journal) : Prop :=
  ∃ earlier later, j.notifications = earlier ++ .stateChanged .started .paused :: later ∧
    ∀ n ∈ later, n ≠ .stateChanged .paused .started ∧ n ≠ .stateChanged .idle .started

/-- Nothing after the last occurrence of `x` violates `P`: the last element is `x`, or it does not
violate `P` and neither does anything between. -/
theorem last_occurrence_snoc {α : Type} {P : α → Prop} {x : α} (xs : List α) (y : α) :
    (∃ earlier later, xs ++ [y] = earlier ++ x :: later ∧ ∀ z ∈ later, P z) ↔
      y = x ∨ P y ∧ ∃ earlier later, xs = earlier ++ x :: later ∧ ∀ z ∈ later, P z := by
  constructor
  · rintro ⟨earlier, later, heq, hlater⟩
    rcases List.eq_nil_or_concat later with rfl | ⟨later, z, rfl⟩
    · exact .inl (List.singleton_inj.mp (List.append_inj' heq rfl).2)
    · rw [List.concat_eq_append] at heq hlater
      rw [← List.cons_append, ← List.append_assoc] at heq
      obtain ⟨rfl, hz⟩ := List.append_inj' heq rfl
      cases hz
      rw [List.forall_mem_append, List.forall_mem_singleton] at hlater
      exact .inr ⟨hlater.2, earlier, later, rfl, hlater.1⟩
  · rintro (rfl | ⟨hy, earlier, later, rfl, hlater⟩)
    · exact ⟨xs, [], rfl, List.forall_mem_nil _⟩
    · refine ⟨earlier, later ++ [y], by simp, ?_⟩
      rw [List.forall_mem_append, List.forall_mem_singleton]
      exact ⟨hlater, hy⟩

theorem Journal.muted_iff_pausedSince (j : Journal) : j.muted false = true ↔ j.PausedSince := by
  rw [muted, PausedSince]
  induction j.notifications using List.reverseRecOn with
  | nil => simp
  | append_singleton ns n ih =>
      rw [last_occurrence_snoc, ← ih, List.foldl_append, List.foldl_cons, List.foldl_nil]
      cases n with
      | stateChanged old new => cases old <;> cases new <;> simp [RadioState.mutes]
      | _ => simp

/-- While nothing is in flight, the sound of a paused radio is muted, and that of a started one is
not, unless the radio was paused and neither resumed nor started since. -/
theorem audio_register_follows_pauses {timing : Timing} {settings : ChipSettings}
    {events : List Event} {history : Journal} {c : Circuit}
    (h : Circuit.Reaches timing settings events history c)
    (hpending : c.receiver.radio.pending = none) :
    (c.receiver.radio.state = .paused →
      c.receiver.chip.register Register.audioControl =
        (Register.audioControlValue true).toUInt16) ∧
    (c.receiver.radio.state = .started →
      (c.receiver.chip.register Register.audioControl =
        (Register.audioControlValue false).toUInt16 ↔ ¬ history.PausedSince)) := by
  rw [← Journal.muted_iff_pausedSince]
  rcases h.sound_or_failed with hsound | hfailed
  · cases hsound with
    | waiting hsome => simp [hpending] at hsome
    | resting _ _ hpanel =>
        refine ⟨fun hstate ↦ ?_, fun hstate ↦ ?_⟩
        · rw [hstate] at hpanel
          obtain ⟨-, hmuted, haudio⟩ := hpanel
          rw [hmuted] at haudio
          exact haudio
        · rw [hstate] at hpanel
          have haudio : c.receiver.chip.register Register.audioControl = _ := hpanel.2
          rw [haudio]
          cases history.muted false <;> decide
  · exact ⟨fun hstate ↦ by simp [hfailed.state] at hstate,
      fun hstate ↦ by simp [hfailed.state] at hstate⟩

/-- A start and a pause. -/
def startAndPause : List Event :=
  [.ready, .request ⟨none, .start .europeUs⟩] ++ startAnswers ++
    [.request ⟨none, .pause⟩, .callback (.vendor 0xfc15 [0, 5, 0])]

/-- A scan that is stopped. -/
def stoppedScan : List Event :=
  [.request ⟨none, .scanUp⟩, .callback (.vendor 0xfc15 [0, 7, 0]),
    .callback (.vendor 0xfc15 [0, 9, 0]), .request ⟨none, .stopScan⟩,
    .callback (.vendor 0xfc15 [0, 9, 0])]

theorem paused_after_start_and_pause :
    ∃ events history c, Circuit.Reaches {} {} events history c ∧
      c.receiver.radio.pending = none ∧ c.receiver.radio.state = .paused ∧
        c.receiver.chip.register Register.audioControl =
          (Register.audioControlValue true).toUInt16 := by
  have hstart : Circuit.Reaches {} {} [] [] (Circuit.start {} {}) := .start
  obtain ⟨⟨c, journal⟩, hrun, hend⟩ : ∃ x, (Circuit.start {} {}).run startAndPause = some x ∧
      (x.1.receiver.radio.pending = none ∧ x.1.receiver.radio.state = .paused) := by
    refine ⟨_, rfl, ?_⟩
    decide
  have h := hstart.run hrun
  exact ⟨_, _, c, h, hend.1, hend.2, (audio_register_follows_pauses h hend.1).1 hend.2⟩

/-- A scan that begins while the radio is paused and is stopped leaves it started and muted. -/
theorem started_muted_after_scan_from_paused :
    ∃ history c, Circuit.Reaches {} {} (startAndPause ++ stoppedScan) history c ∧
      (∀ id, .timeout id ∉ startAndPause ++ stoppedScan) ∧ c.receiver.radio.pending = none ∧
        c.receiver.radio.state = .started ∧
          c.receiver.chip.register Register.audioControl ≠
            (Register.audioControlValue false).toUInt16 := by
  have hstart : Circuit.Reaches {} {} [] [] (Circuit.start {} {}) := .start
  obtain ⟨⟨c, journal⟩, hrun, hend⟩ : ∃ x,
      (Circuit.start {} {}).run (startAndPause ++ stoppedScan) = some x ∧
        (x.1.receiver.radio.pending = none ∧ x.1.receiver.radio.state = .started ∧
          x.1.receiver.chip.register Register.audioControl ≠
            (Register.audioControlValue false).toUInt16) := by
    refine ⟨_, rfl, ?_⟩
    decide
  exact ⟨_, c, hstart.run hrun, by simp [startAndPause, startAnswers, stoppedScan], hend⟩

end FmTuner
