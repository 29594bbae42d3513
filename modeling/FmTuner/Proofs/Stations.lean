import FmTuner.Proofs.Channels
import FmTuner.Proofs.Polling
import FmTuner.Proofs.StartedBands

/-!
# Stations

The frequency that a radio knows and the stations on its list are written at different times, and a
start may put it on another band in between. The known frequency is forgotten then, so that it is
always a channel of the band of the moment. The list is kept: what is true of a station is that it
was a channel of the band on which it was found.
-/

namespace FmTuner

namespace Attributes

/-- How the station list may have gone from that of `a` to that of `b`. -/
inductive Lists (a b : Attributes) : Prop where
  | kept (hstations : b.stations = a.stations)
  | cleared (hstations : b.stations = [])
  /-- One more station was found, on a channel of the band of both. -/
  | added (s : Station) (hband : b.band = a.band) (hvalid : a.band.isValid s.freq = true)
      (hstations : b.stations = a.stations ++ [s])

variable {a b c : Attributes}

theorem Lists.congr (h : a.Lists b) (hband : c.band = b.band) (hstations : c.stations = b.stations) :
    a.Lists c := by
  cases h with
  | kept hkept => exact .kept (hstations.trans hkept)
  | cleared hcleared => exact .cleared (hstations.trans hcleared)
  | added s hsame hvalid hadded => exact .added s (hband.trans hsame) hvalid (hstations.trans hadded)

theorem isTunedToChannel_eq (h : a.OnGrid) : a.isTunedToChannel = a.frequency.isSome := by
  cases hf : a.frequency with
  | none => simp [isTunedToChannel, hf]
  | some f => simp [isTunedToChannel, hf, h f hf]

end Attributes

/-! ## Hooks -/

theorem Readings.frequency_of_station {r : Readings} {mode : ScanMode} {s : Station}
    (h : r.station mode = some s) : r.frequency = some s.freq := by
  cases mode with
  | full =>
      obtain ⟨f, hf, h⟩ := Option.bind_eq_some_iff.mp h
      obtain ⟨level, -, h⟩ := Option.bind_eq_some_iff.mp h
      cases h
      exact hf
  | _ => simp [station] at h

/-- A poll adds at most the station that it has read. -/
theorem Readings.lists_of_poll {a b : Attributes} {r : Readings} {mode : ScanMode} {capacity : Nat}
    {next : Operation} (hr : ∀ f, r.frequency = some f → a.band.isValid f = true)
    (h : r.poll mode capacity a = .ok (b, next)) : a.Lists b := by
  have hband := band_of_poll h
  rw [poll] at h
  split at h
  next s hs =>
    simp only [bind, Except.bind] at h
    split at h
    · cases h
    · cases h
      exact .added s hband (hr s.freq (frequency_of_station hs)) rfl
  next =>
    cases h
    exact .kept rfl

theorem Hook.lists_of_apply {a b : Attributes} {hook : Hook} {status : Status}
    {commands : List Command} {followups : List Operation}
    (hcommands : ∀ command ∈ commands, command.OnGrid a.band)
    (h : hook.apply status commands a = .ok (b, followups)) : a.Lists b := by
  cases status with
  | done =>
      cases hook with
      | fullScanStarted =>
          cases h
          exact .cleared rfl
      | scanPolled mode capacity =>
          simp only [apply, bind, Except.bind] at h
          split at h
          next => simp at h
          next result hpoll =>
            cases h
            exact Readings.lists_of_poll (fun f hf ↦ Readings.onGrid hcommands hf) hpoll
      | _ =>
          cases h
          exact .kept rfl
  | _ => cases hook <;> cases h <;> exact .kept rfl

/-- What is done without the chip touches neither the band nor the list. -/
theorem Plan.Built.keeps_of_empty {timing : Timing} {operation : Operation} {a b : Attributes}
    {scanMode : Option ScanMode} {plan : Plan} (h : Built timing a scanMode operation plan)
    (hcommands : plan.action.commands = []) {followups : List Operation}
    (hhook : plan.action.hook.apply .done [] a = .ok (b, followups)) :
    b.band = a.band ∧ b.stations = a.stations := by
  cases h with
  | setThreshold | setAutoAfSwitch | setAutoTaSwitch | scanDone =>
      cases hhook
      exact ⟨rfl, rfl⟩
  | _ => simp [ofCommands, startCommands, tuneCommands, searchCommands] at hcommands

/-! ## Moves -/

/-- An answer of the chip leads to at most one more station. -/
theorem Action.Advances.lists {accepts : Call → Bool} {action : Action} {callback : Callback}
    {a : Attributes} {p : Progress} (h : action.Advances accepts callback a p)
    (haction : action.OnGrid a.band) : a.Lists p.attributes := by
  cases h with
  | stopped hcommand hcomplete _ hhook =>
      exact Hook.lists_of_apply (haction.set hcommand hcomplete) hhook
  | finished hcommand hcomplete _ hhook =>
      exact Hook.lists_of_apply (haction.set hcommand hcomplete) hhook
  | refused | issued => exact .kept rfl

namespace Turn

variable {accepts : Call → Bool} {e : Option Event} {t u : Turn}

/-- Nothing but an answer of the chip changes the band or the list. -/
theorem Move.keeps_list (hmove : Move accepts e t u)
    (hevent : ∀ callback, e ≠ some (.callback callback)) :
    u.radio.attributes.band = t.radio.attributes.band ∧
      u.radio.attributes.stations = t.radio.attributes.stations := by
  cases hmove with
  | ready => simp
  | arrive r => simp
  | decline htaken => simp [htaken.attributes]
  | begin htaken hroute hplan hbegins hstatus =>
      cases hbegins with
      | empty | refused => simp at hstatus
      | issued => simp [htaken.attributes]
  | flash htaken hroute hplan hbegins hstatus =>
      cases hbegins with
      | empty hcommands hhook =>
          have hkeeps := (Plan.built_of_build hplan).keeps_of_empty hcommands hhook
          simpa [Controller.resolved, htaken.attributes] using hkeeps
      | refused => simp [Controller.resolved, htaken.attributes]
      | issued => simp [Status.isTerminal] at hstatus
  | advance => exact absurd rfl (hevent _)
  | finish => exact absurd rfl (hevent _)
  | expire => simp [Controller.resolved]

theorem Taken.not_callback {r : Request} (htaken : Taken e t r u) (callback : Callback) :
    e ≠ some (.callback callback) := by
  cases htaken <;> simp

theorem Move.lists (hmove : Move accepts e t u) (h : t.radio.OnGrid) :
    t.radio.attributes.Lists u.radio.attributes := by
  have hkeeps := hmove.keeps_list
  cases hmove with
  | ready | arrive | expire => exact .kept (hkeeps (by simp)).2
  | decline htaken | begin htaken | flash htaken => exact .kept (hkeeps htaken.not_callback).2
  | advance hpending hadvances =>
      rw [hold_radio]
      exact hadvances.lists (h.action _ hpending)
  | finish hpending hadvances =>
      rw [settle_radio]
      exact hadvances.lists (h.action _ hpending)

end Turn

namespace Controller

variable {timing : Timing} {script : List (Event × (Call → Bool))} {accepts : Call → Bool}
  {event : Event} {c : Controller} {t u : Turn}

theorem initial_onGrid (timing : Timing) : (initial timing).OnGrid := by
  refine ⟨?_, ?_⟩ <;> simp [initial, Attributes.OnGrid]

theorem run_onGrid (h : (initial timing).run script = .ok t) : t.radio.OnGrid :=
  (run_induction (P := fun t ↦ t.radio.OnGrid) (initial_onGrid timing)
    (fun _ _ _ _ _ ht _ _ hmove ↦ hmove.onGrid ht) (fun _ _ _ ht _ hmove ↦ hmove.onGrid ht) h).1

/-- The first move of a step may change the list; those that empty the queue do not. -/
theorem step_lists (hsteady : c.Steady) (hgrid : c.OnGrid) (h : c.step accepts event = .ok u) :
    c.attributes.Lists u.radio.attributes := by
  rcases step_moves hsteady h with ⟨-, -, rfl⟩ | ⟨v, hcause, hmoves, -⟩
  · exact .kept rfl
  · have hv : c.attributes.Lists v.radio.attributes := by
      rcases hcause with ⟨-, rfl⟩ | hmove
      · exact .kept rfl
      · exact hmove.lists hgrid
    refine Turn.keeps_of_moves (Q := fun t ↦ c.attributes.Lists t.radio.attributes) ?_ hmoves hv
    intro t w ht hmove
    obtain ⟨hband, hstations⟩ := hmove.keeps_list (by simp)
    exact ht.congr hband hstations

/-- Whatever bands are started, whatever frequencies are asked for and whatever the chip says, the
known frequency is a channel of the band. A step keeps the list of stations, empties it, or adds a
channel of the band that the radio is on. -/
theorem known_frequency_is_channel (h : (initial timing).run script = .ok t) :
    (∀ f, t.radio.attributes.frequency = some f → t.radio.attributes.band.isValid f = true) ∧
    t.radio.attributes.isTunedToChannel = t.radio.attributes.frequency.isSome ∧
    ∀ event accepts u, t.radio.step accepts event = .ok u →
      t.radio.attributes.Lists u.radio.attributes := by
  have hgrid := run_onGrid h
  obtain ⟨-, hsteady, -⟩ := run_paced h
  refine ⟨hgrid.attributes, Attributes.isTunedToChannel_eq hgrid.attributes, ?_⟩
  exact fun event accepts u hstep ↦ step_lists hsteady hgrid hstep

/-- A full scan up to where its first poll waits for the signal. The frequency read is 100030 kHz,
between two channels. -/
def surveyPolled : List (Event × (Call → Bool)) :=
  [.ready, .request ⟨none, .start .europeUs⟩, .callback (.power true),
    .callback (.vendor 0xfc15 [0, 0, 0]), .callback .delayElapsed,
    .callback (.vendor 0xfc15 [0, 1, 0]), .callback (.vendor 0xfc15 [0, 5, 0]),
    .request ⟨none, .fullScan⟩, .callback (.vendor 0xfc15 [0, 10, 0]),
    .callback (.vendor 0xfc15 [0, 7, 0]), .callback (.vendor 0xfc15 [0, 9, 0]), .pollDue 2,
    .callback (.vendor 0xfc15 [0, 18, 1, 1, 0]),
    .callback (.vendor 0xfc15 [0, 10, 1, 0xbe, 0x8c])].map fun event ↦ (event, fun _ ↦ true)

/-- The frequency read between two channels is taken for the nearer one, which joins the list. -/
theorem station_joins_on_channel :
    ∃ t u, (initial {}).run surveyPolled = .ok t ∧
      t.radio.step (fun _ ↦ true) (.callback (.vendor 0xfc15 [0, 15, 1, 40])) = .ok u ∧
        t.radio.attributes.stations = [] ∧
          u.radio.attributes.stations = [⟨⟨100000⟩, 40⟩] ∧
            t.radio.attributes.band.isValid ⟨100000⟩ = true := by
  obtain ⟨t, u, ht, hu, hbefore, hafter⟩ : ∃ t u, (initial {}).run surveyPolled = .ok t ∧
      t.radio.step (fun _ ↦ true) (.callback (.vendor 0xfc15 [0, 15, 1, 40])) = .ok u ∧
        t.radio.attributes.stations = [] ∧
          u.radio.attributes.stations = [⟨⟨100000⟩, 40⟩] := ⟨_, _, rfl, rfl, rfl, rfl⟩
  refine ⟨t, u, ht, hu, hbefore, hafter, ?_⟩
  cases (known_frequency_is_channel ht).2.2 _ _ u hu with
  | kept hstations => simp [hafter, hbefore] at hstations
  | cleared hstations => simp [hafter] at hstations
  | added s hband hvalid hstations =>
      rw [hafter, hbefore, List.nil_append] at hstations
      cases hstations
      exact hvalid

end Controller

end FmTuner
