import FmTuner.Proofs.Circuit
import FmTuner.Proofs.Ranges

/-!
# Answers belong to the command that waits

A circuit whose bands are in range never faults, no command of it is refused and no answer is a
protocol error. Only the timeout of the transition in flight leads into the error state.
-/

namespace FmTuner

namespace Circuit

variable {timing : Timing} {settings : ChipSettings} {events : List Event} {history : Journal}
  {c : Circuit}

theorem Reaches.inRange (h : Reaches timing settings events history c)
    (hevents : ∀ event ∈ events, event.InRange) : c.receiver.radio.InRange := by
  induction h with
  | start => exact Controller.initial_inRange timing
  | step h hoffers hstep ih =>
      rw [List.forall_mem_append, List.forall_mem_singleton] at hevents
      obtain ⟨turn, hturn, rfl, rfl⟩ := step_ok hstep
      exact Controller.step_inRange (ih hevents.1) h.steady hevents.2 hturn

theorem exists_step (hrange : c.receiver.radio.InRange) (hsteady : c.receiver.radio.Steady)
    {event : Event} (hevent : event.InRange) : ∃ d journal, c.step event = .ok (d, journal) := by
  obtain ⟨turn, hturn⟩ := Controller.step_ok c.receiver.chip.accepts hrange hsteady hevent
  exact ⟨_, _, step_of_turn hturn⟩

end Circuit

/-- Unless a circuit has failed, exactly one callback is on its way while a transition is in flight,
and none otherwise. It answers the command that waits, and is no protocol error. Whatever happens
next, no command is refused; and only the timeout of the transition in flight makes the circuit
fail. -/
theorem pending_command_answered_by_callback_in_flight {timing : Timing} {settings : ChipSettings}
    {events : List Event} {history : Journal} {c : Circuit}
    (h : Circuit.Reaches timing settings events history c)
    (hevents : ∀ event ∈ events, event.InRange) (hstate : c.receiver.radio.state ≠ .error) :
    (c.receiver.radio.pending = none → c.inFlight = []) ∧
    (∀ p, c.receiver.radio.pending = some p →
      ∃ command answer, p.action.commands[p.action.index]? = some command ∧
        c.inFlight = [answer] ∧ Circuit.Brought c.receiver.chip command answer ∧
          ∃ completed verdict, command.complete answer c.receiver.radio.attributes.band =
            .ok (completed, verdict) ∧ verdict ≠ .error) ∧
    (∀ event, event.InRange → c.Offers event →
      ∃ d journal, c.step event = .ok (d, journal) ∧ (∀ x ∈ journal.sent, x.2 = true) ∧
        (d.receiver.radio.state = .error →
          ∃ p, c.receiver.radio.pending = some p ∧ event = .timeout p.id)) := by
  have hrange := h.inRange hevents
  have hsound : c.Sound (history.muted false) :=
    h.sound_or_failed.resolve_right fun hfailed ↦ hstate hfailed.state
  refine ⟨fun hnone ↦ ?_, fun p hsome ↦ ?_, fun event hevent hoffers ↦ ?_⟩
  · cases hsound with
    | resting _ hinFlight => exact hinFlight
    | waiting hpending => simp [hnone] at hpending
  · cases hsound with
    | resting hpending => simp [hsome] at hpending
    | @waiting q command answer hpending _ _ _ hexpects =>
        cases hsome.symm.trans hpending
        have hcommand := (hrange.action p hsome).commands command
          (List.mem_of_getElem? hexpects.current)
        obtain ⟨completed, verdict, hcomplete, -⟩ :=
          Command.complete_ok hrange.attributes.1 hcommand answer
        exact ⟨command, answer, hexpects.current, hexpects.inFlight, hexpects.brought, completed,
          verdict, hcomplete, (hexpects.answered _ _ _ hcomplete).1⟩
  · obtain ⟨d, journal, hstep⟩ := Circuit.exists_step hrange h.steady hevent
    obtain ⟨hnext, haccepted⟩ := hsound.step h.steady hoffers hstep
    refine ⟨d, journal, hstep, haccepted, fun herror ↦ ?_⟩
    rcases hnext with hd | ⟨-, htimeout⟩
    · exact (hd.state_ne_error herror).elim
    · exact htimeout

/-- While a start is in flight, the power-up report is all that is on its way. -/
theorem power_report_answers_start :
    ∃ events history c, Circuit.Reaches {} {} events history c ∧
      c.receiver.radio.state ≠ .error ∧ c.inFlight = [.power true] ∧
        ∃ p, c.receiver.radio.pending = some p ∧
          ∃ command answer, p.action.commands[p.action.index]? = some command ∧
            c.inFlight = [answer] ∧ Circuit.Brought c.receiver.chip command answer := by
  have hstart : Circuit.Reaches {} {} [] [] (Circuit.start {} {}) := .start
  have hready := hstart.step (show Circuit.Offers _ .ready from trivial) rfl
  have h := hready.step
    (show Circuit.Offers _ (.request ⟨none, .start .europeUs⟩) from trivial) rfl
  have hevents : ∀ event ∈ [Event.ready, .request ⟨none, .start .europeUs⟩], event.InRange := by
    simp [Event.InRange, Operation.InRange, Band.InRange, Band.europeUs, Word.limit, UInt32.size]
  have hanswers := pending_command_answered_by_callback_in_flight h hevents (by decide)
  obtain ⟨command, answer, hcommand, hanswer, hbrought, -⟩ := hanswers.2.1 _ rfl
  exact ⟨_, _, _, h, by decide, rfl, _, rfl, command, answer, hcommand, hanswer, hbrought⟩

end FmTuner
