import FmTuner.Proofs.Moves

/-!
# Started bands

A radio is on the band that was started last, or on the one that it had from the beginning. So what
is true of that one, and of all that clients start, is true of every band that a radio is ever on.
-/

namespace FmTuner

/-- What an action has changed so far was changed by its hook. -/
def Progress.Applies (hook : Hook) (a : Attributes) (p : Progress) : Prop :=
  p.attributes = a ∧ p.followups = [] ∨
    ∃ status commands, hook.apply status commands a = .ok (p.attributes, p.followups)

namespace Action

variable {accepts : Call → Bool} {action : Action} {a : Attributes} {p : Progress}

theorem Begins.applies (h : action.Begins accepts a p) : p.Applies action.hook a := by
  cases h with
  | empty hcommands hhook => exact .inr ⟨_, _, hhook⟩
  | refused | issued => exact .inl ⟨rfl, rfl⟩

theorem Advances.applies {callback : Callback} (h : action.Advances accepts callback a p) :
    p.Applies action.hook a := by
  cases h with
  | stopped _ _ _ hhook | finished _ _ _ hhook => exact .inr ⟨_, _, hhook⟩
  | refused | issued => exact .inl ⟨rfl, rfl⟩

end Action

theorem Readings.band_of_poll {r : Readings} {mode : ScanMode} {capacity : Nat} {a b : Attributes}
    {next : Operation} (h : r.poll mode capacity a = .ok (b, next)) : b.band = a.band := by
  unfold poll at h
  split at h
  · simp only [bind, Except.bind] at h
    split at h <;> cases h
    rfl
  · cases h
    rfl

theorem Hook.band_of_apply {hook : Hook} {status : Status} {commands : List Command}
    {a b : Attributes} {followups : List Operation}
    (h : hook.apply status commands a = .ok (b, followups)) :
    b.band = a.band ∨ hook = .started b.band := by
  cases status with
  | done =>
      cases hook with
      | started band =>
          cases h
          exact .inr rfl
      | scanPolled mode capacity =>
          simp only [apply, bind, Except.bind] at h
          split at h
          next => simp at h
          next result hpoll =>
            cases h
            exact .inl (Readings.band_of_poll hpoll)
      | _ =>
          cases h
          exact .inl rfl
  | _ => cases hook <;> cases h <;> exact .inl rfl

theorem Hook.not_start_of_apply {hook : Hook} {status : Status} {commands : List Command}
    {a b : Attributes} {followups : List Operation}
    (h : hook.apply status commands a = .ok (b, followups)) :
    ∀ operation ∈ followups, operation.isStart = false := by
  rcases Hook.followups_of_apply h with rfl | ⟨operation, rfl, hfollows⟩
  · simp
  · rw [List.forall_mem_singleton]
    cases hfollows <;> rfl

theorem Journal.mem_followups {first : Nat} {operations : List Operation} {q : Queued}
    (h : q ∈ followups first operations) : q.request.operation ∈ operations := by
  induction operations generalizing first with
  | nil => simp at h
  | cons operation rest ih =>
      rw [followups_cons, List.mem_cons] at h
      rcases h with rfl | h
      · exact List.mem_cons_self ..
      · exact List.mem_cons_of_mem _ (ih h)

theorem Plan.Built.start_of_hook {timing : Timing} {operation : Operation} {a : Attributes}
    {scanMode : Option ScanMode} {plan : Plan} (h : Built timing a scanMode operation plan)
    {b : Band} (hhook : plan.action.hook = .started b) : operation = .start b := by
  cases h with
  | start =>
      cases hhook
      rfl
  | _ => simp [ofCommands] at hhook

/-- The band that the radio is on, and all those that it is asked to start, have a property. -/
structure Controller.Bands (P : Band → Prop) (c : Controller) : Prop where
  current : P c.attributes.band
  queued : ∀ q ∈ c.queue, ∀ b, q.request.operation = .start b → P b
  flight : ∀ p b, c.pending = some p → p.action.hook = .started b → P b

namespace Turn

variable {P : Band → Prop} {accepts : Call → Bool} {e : Option Event} {t u : Turn} {p : Pending}
  {progress : Progress}

theorem Taken.bands {r : Request} (htaken : Taken e t r u) (h : t.radio.Bands P) :
    u.radio.Bands P ∧ ∀ b, r.operation = .start b → P b := by
  cases htaken with
  | queued hpending hqueue =>
      have hall := h.queued
      rw [hqueue, List.forall_mem_append, List.forall_mem_cons] at hall
      refine ⟨⟨h.current, ?_, h.flight⟩, hall.2.1⟩
      rw [take_radio, List.forall_mem_append]
      exact ⟨hall.1, hall.2.2⟩
  | poll => exact ⟨h, by simp⟩

theorem bands_of_applies (h : t.radio.Bands P) {hook : Hook}
    (hhook : ∀ b, hook = .started b → P b) (happlies : progress.Applies hook t.radio.attributes) :
    P progress.attributes.band ∧
      ∀ q ∈ t.radio.queue ++ Journal.followups t.radio.arrivals progress.followups,
        ∀ b, q.request.operation = .start b → P b := by
  rcases happlies with ⟨hattributes, hfollowups⟩ | ⟨status, commands, happly⟩
  · rw [hattributes, hfollowups, Journal.followups_nil, List.append_nil]
    exact ⟨h.current, h.queued⟩
  · constructor
    · rcases Hook.band_of_apply happly with hband | hstarted
      · rw [hband]
        exact h.current
      · exact hhook _ hstarted
    · rw [List.forall_mem_append]
      refine ⟨h.queued, fun q hq b hb ↦ ?_⟩
      have hstart := Hook.not_start_of_apply happly _ (Journal.mem_followups hq)
      simp [hb, Operation.isStart] at hstart

theorem bands_hold (h : t.radio.Bands P) (hhook : ∀ b, p.action.hook = .started b → P b)
    (happlies : progress.Applies p.action.hook t.radio.attributes)
    (hsame : progress.action.hook = p.action.hook) : (t.hold p progress).radio.Bands P := by
  obtain ⟨hcurrent, hqueued⟩ := bands_of_applies h hhook happlies
  rw [hold_radio]
  refine ⟨hcurrent, hqueued, fun q b hq hb ↦ ?_⟩
  cases hq
  exact hhook b (hsame.symm.trans hb)

theorem bands_settle (h : t.radio.Bands P) (hhook : ∀ b, p.action.hook = .started b → P b)
    (happlies : progress.Applies p.action.hook t.radio.attributes) (armed timedOut : Bool) :
    (t.settle p progress armed timedOut).radio.Bands P := by
  obtain ⟨hcurrent, hqueued⟩ := bands_of_applies h hhook happlies
  rw [settle_radio]
  exact ⟨hcurrent, hqueued, fun q b hq ↦ by simp [Controller.resolved] at hq⟩

theorem Move.bands (hmove : Move accepts e t u) (h : t.radio.Bands P)
    (hevent : ∀ r b, e = some (.request r) → r.operation = .start b → P b) :
    u.radio.Bands P := by
  cases hmove with
  | ready =>
      rw [enter_radio]
      exact ⟨h.current, h.queued, h.flight⟩
  | arrive r =>
      refine ⟨h.current, ?_, h.flight⟩
      rw [enqueue_radio, List.forall_mem_append, List.forall_mem_singleton]
      exact ⟨h.queued, fun b hb ↦ hevent r b rfl hb⟩
  | decline htaken =>
      rw [report_radio]
      exact (htaken.bands h).1
  | begin htaken hroute hplan hbegins =>
      obtain ⟨hv, hr⟩ := htaken.bands h
      exact bands_hold (t := launch _ _ _) ⟨hv.current, hv.queued, hv.flight⟩
        (fun b hb ↦ hr b ((Plan.built_of_build hplan).start_of_hook hb)) hbegins.applies
        hbegins.same.2
  | flash htaken hroute hplan hbegins =>
      obtain ⟨hv, hr⟩ := htaken.bands h
      exact bands_settle (t := launch _ _ _) ⟨hv.current, hv.queued, hv.flight⟩
        (fun b hb ↦ hr b ((Plan.built_of_build hplan).start_of_hook hb)) hbegins.applies _ _
  | advance hpending hadvances =>
      exact bands_hold h (fun b ↦ h.flight _ b hpending) hadvances.applies hadvances.same.2
  | finish hpending hadvances =>
      exact bands_settle h (fun b ↦ h.flight _ b hpending) hadvances.applies _ _
  | expire hpending =>
      exact bands_settle h (fun b ↦ h.flight _ b hpending) (.inl ⟨rfl, rfl⟩) _ _

end Turn

end FmTuner
