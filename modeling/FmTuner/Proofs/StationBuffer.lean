import FmTuner.Proofs.Stops
import FmTuner.Proofs.SurveyViews

/-!
# The station list of a full scan

Room for another station is looked at only after one was added, and a list that is full ends the
scan by a follow-up that waits behind whatever is queued by then. The list stays within its
capacity all the same: until that follow-up has been carried out no poll begins, for polls are only
begun at rest and there is no rest in front of it.
-/

namespace FmTuner

/-! ## A full list ends the scan -/

/-- A poll that leaves no room asks for the end of its scan. -/
theorem Hook.followups_of_full {mode : ScanMode} {capacity : Nat} {commands : List Command}
    {a b : Attributes} {followups : List Operation}
    (h : (Hook.scanPolled mode capacity).apply .done commands a = .ok (b, followups))
    (hfull : capacity ≤ b.stations.length) : followups = [.scanDone mode false] := by
  simp only [apply, bind, Except.bind] at h
  split at h
  next => simp at h
  next result hpoll =>
    obtain ⟨polled, next⟩ := result
    cases h
    cases hstation : (Readings.ofCommands commands).station mode with
    | none =>
        simp only [Readings.poll, hstation] at hpoll
        cases hpoll
        rfl
    | some s =>
        simp only [Readings.poll, hstation, bind, Except.bind] at hpoll
        split at hpoll
        next => simp at hpoll
        next =>
          cases hpoll
          rw [if_pos (.inl hfull)]

namespace Turn

/-- A poll that ends and leaves no room has asked for the end of its scan. -/
def Fills (p : Pending) (progress : Progress) : Prop :=
  ∀ mode capacity, p.action.hook = .scanPolled mode capacity → progress.action.status = .done →
    capacity ≤ progress.attributes.stations.length → progress.followups = [.scanDone mode false]

variable {accepts : Call → Bool} {p : Pending} {a : Attributes} {progress : Progress}

theorem fills_of_begins (h : p.action.Begins accepts a progress) : Fills p progress := by
  intro mode capacity hhook hdone hfull
  cases h with
  | empty _ happly => exact Hook.followups_of_full (hhook ▸ happly) hfull
  | refused => simp at hdone
  | issued => simp at hdone

theorem fills_of_advances {callback : Callback} (h : p.action.Advances accepts callback a progress)
    (hrunning : p.action.status = .running) : Fills p progress := by
  intro mode capacity hhook hdone hfull
  cases h with
  | @stopped _ _ verdict => exact (Action.verdict_status_ne_done verdict hdone).elim
  | finished _ _ _ happly => exact Hook.followups_of_full (hhook ▸ happly) hfull
  | refused => simp at hdone
  | issued => simp [hrunning] at hdone

end Turn

/-- The station list is within its capacity, and a full scan that has filled it is about to end. -/
structure Controller.Stocked (capacity : Nat) (c : Controller) : Prop where
  limit : c.timing.maxStations = capacity
  room : c.attributes.stations.length ≤ capacity
  poll : ∀ p mode, c.pending = some p → p.action.operation = .pollScan mode →
    p.action.hook = .scanPolled mode capacity
  full : c.state = .scanning → c.scanMode = some .full →
    capacity ≤ c.attributes.stations.length → c.Closing

namespace Turn

variable {accepts : Call → Bool} {e : Option Event} {t u : Turn} {p : Pending} {x : Account}
  {before k : Journal} {progress : Progress} {capacity : Nat} {armed timedOut : Bool}

open Controller (Stocked)

/-- While a poll of a full scan is in flight there is room for the station that it may find. -/
theorem Carries.lt_of_poll (hcarries : t.Carries p) (h : t.radio.Stocked capacity)
    (hpending : t.radio.pending = some p) (hpoll : p.action.operation = .pollScan .full) :
    t.radio.attributes.stations.length < capacity := by
  have hmode := (hcarries.polled _ _ (h.poll p .full hpending hpoll)).2
  have hstate := (RadioState.scanning_of_accept hcarries.route (.inr (by rw [hpoll]; rfl))).1
  by_contra hfull
  exact (h.full hstate hmode (Nat.le_of_not_lt hfull)).poll p hpending .full hpoll

/-- A poll is begun at rest, where no end of a scan waits. -/
theorem lt_of_rested (h : t.radio.Stocked capacity) (hrested : t.radio.Rested)
    (hpending : t.radio.pending = none) (hstate : t.radio.state = .scanning)
    (hmode : t.radio.scanMode = some .full) : t.radio.attributes.stations.length < capacity := by
  by_contra hfull
  exact (h.full hstate hmode (Nat.le_of_not_lt hfull)).pending_ne_none hstate hrested hpending

theorem stocked_launched (h : t.radio.Stocked capacity) (hscans : t.Scans)
    (hrested : e ≠ none → t.radio.Rested) {r : Request} {destination : RadioState} {plan : Plan}
    (htaken : Taken e t r u)
    (hbuilt : Plan.Built u.radio.timing u.radio.attributes u.radio.scanMode r.operation plan)
    {notices : List Notification} :
    (u.launched (u.radio.transition r destination plan.action) notices).radio.Stocked capacity := by
  have hoperation : plan.action.operation = r.operation := hbuilt.action.1
  have hlimit : u.radio.timing.maxStations = capacity := by cases htaken <;> exact h.limit
  have hhook : ∀ mode, r.operation = .pollScan mode →
      plan.action.hook = .scanPolled mode capacity := by
    intro mode hmode
    rw [hmode] at hbuilt
    cases hbuilt
    rw [← hlimit]
    rfl
  cases htaken with
  | @queued _ q passed rest hpending hqueue =>
      refine ⟨h.limit, h.room, ?_, fun hstate hmode hfull ↦ ?_⟩
      · rintro p mode ⟨⟩ hmode
        exact hhook mode (hoperation.symm.trans hmode)
      · refine (h.full hstate hmode hfull).begun hpending hqueue (fun mode hpoll ↦ ?_) rfl
          hoperation rfl
        exact hscans.polls q mode (Journal.queued_of_waiting (hscans.queue ▸ by simp [hqueue])) hpoll
  | poll hpending hstate hmode =>
      refine ⟨h.limit, h.room, ?_, fun _ hfullMode hfull ↦ ?_⟩
      · rintro p mode ⟨⟩ hmode
        exact hhook mode (hoperation.symm.trans hmode)
      · have hlt := lt_of_rested h (hrested (by simp)) hpending hstate hfullMode
        exact (Nat.not_le_of_lt hlt hfull).elim

theorem stocked_hold (h : t.radio.Stocked capacity) (hpending : t.radio.pending = some p)
    (hsame : progress.action.operation = p.action.operation ∧ progress.action.hook = p.action.hook)
    (hattributes : progress.attributes = t.radio.attributes) :
    (t.hold p progress).radio.Stocked capacity := by
  refine ⟨by simpa using h.limit, ?_, ?_, fun hstate hmode hfull ↦ ?_⟩
  · simpa [hattributes] using h.room
  · intro q mode hq hmode
    simp only [hold_radio, Option.some.injEq] at hq
    subst hq
    rw [← h.poll p mode hpending (hsame.1.symm.trans hmode)]
    exact hsame.2
  · rw [hold_radio] at hstate hmode hfull
    rw [hattributes] at hfull
    exact closing_hold (h.full hstate hmode hfull) hpending hsame.1

/-- What the end of a transition records in the attributes, and what it has read if it was a poll. -/
structure Concludes (t : Turn) (p : Pending) (progress : Progress) : Prop where
  attributes : progress.attributes =
    if progress.action.status = .done then
      t.radio.attributes.record { p with action := progress.action }
    else t.radio.attributes
  reads : ∀ mode, progress.action.status = .done → p.action.operation = .pollScan mode →
    ∃ stereo f level, progress.action.Decodes t.radio.attributes.band stereo f level

theorem Records.concludes (h : t.Records p x before) (hscoped : t.radio.Scoped)
    (hsame : progress.action.operation = p.action.operation ∧ progress.action.hook = p.action.hook)
    (hends : (x.extend (Journal.ofProgress t.radio.arrivals progress)).Ends progress) :
    t.Concludes p progress := by
  obtain ⟨k, hk, hclosed, -⟩ :=
    h.settle hscoped hsame hends (by simp : false = true → progress.action.status = .error) false
  have hattributes := hclosed.attributes (h.valid.extend hk)
  have hstart : (x.extend k).start.attributes = t.radio.attributes := h.attributes.symm
  rw [hstart, settle_radio] at hattributes
  refine ⟨hattributes, fun mode hdone hpoll ↦ ?_⟩
  rw [← hstart]
  exact hclosed.decodes (h.valid.extend hk) hdone (hsame.1.trans hpoll)

theorem Concludes.room (h : t.Concludes p progress) (hcarries : t.Carries p)
    (hstocked : t.radio.Stocked capacity) (hpending : t.radio.pending = some p)
    (hoperation : progress.action.operation = p.action.operation) :
    progress.attributes.stations.length ≤ capacity := by
  rw [h.attributes]
  split
  next hdone =>
    rw [Attributes.record_stations]
    by_cases hpoll : p.action.operation = .pollScan .full
    · have hlt := hcarries.lt_of_poll hstocked hpending hpoll
      exact (Pending.length_visit_le _ _).trans hlt
    · by_cases hscan : p.action.operation = .fullScan
      · simp [Pending.visit, hoperation, hscan]
      · rw [Pending.visit_eq_self (by simpa [hoperation] using hscan)
          (by simpa [hoperation] using hpoll)]
        exact hstocked.room
  next => exact hstocked.room

/-- A full scan stays full over whatever ends within it, and the poll that fills it asks for its
end. -/
theorem stocked_settle (h : t.radio.Stocked capacity) (hcapacity : 1 ≤ capacity)
    (hcarries : t.Carries p) (hpending : t.radio.pending = some p) (hcloses : Closes p progress)
    (hconcludes : t.Concludes p progress) (hfills : Fills p progress) :
    (t.settle p progress armed timedOut).radio.Stocked capacity := by
  have hroom := hconcludes.room hcarries h hpending hcloses.operation
  refine ⟨by simpa [Controller.resolved] using h.limit, by simpa [Controller.resolved] using hroom,
    by simp [Controller.resolved], fun hstate hmode hfull ↦ ?_⟩
  have htarget : (resolution { p with action := progress.action } timedOut).1 = .scanning := by
    simpa [Controller.resolved] using hstate
  have hscan : t.radio.scanAfter { p with action := progress.action } = some .full := by
    simpa [Controller.resolved, Controller.scanAfter, htarget] using hmode
  have hfull' : capacity ≤ progress.attributes.stations.length := by
    simpa [Controller.resolved] using hfull
  by_cases hpoll : p.action.operation.isPoll = true
  · obtain ⟨mode, hmode⟩ := Operation.eq_of_isPoll hpoll
    have hhook := h.poll p mode hpending hmode
    by_cases hdone : progress.action.status = .done
    · -- The end that the poll has asked for waits now.
      have hfollowups := hfills mode capacity hhook hdone hfull'
      refine ⟨by simp [Controller.resolved],
        .inl ⟨⟨t.radio.arrivals, ⟨none, .scanDone mode false⟩⟩, ?_, rfl⟩⟩
      simp [Controller.resolved, hfollowups]
    · have hstill : progress.attributes = t.radio.attributes := by
        rw [hconcludes.attributes, if_neg hdone]
      have hsame : t.radio.scanMode = some .full := by
        simpa [Controller.scanAfter, hdone] using hscan
      have hscanning := (RadioState.scanning_of_accept hcarries.route (.inr (by rw [hmode]; rfl))).1
      rw [hstill] at hfull'
      exact ((h.full hscanning hsame hfull').poll p hpending mode hmode).elim
  · have hdone : progress.action.status = .done := by
      rcases resolution_cases { p with action := progress.action } timedOut with
        ⟨hdone, -⟩ | ⟨hfailed, -⟩ | ⟨-, herror⟩
      · exact hdone
      · obtain ⟨mode, hmode⟩ := hcloses.unsuccessful hfailed
        simp [hmode, Operation.isPoll] at hpoll
      · simp [htarget] at herror
    have hrecorded : progress.attributes.stations =
        Pending.visit t.radio.attributes.stations { p with action := progress.action } := by
      rw [hconcludes.attributes, if_pos hdone, Attributes.record_stations]
    have hroute := hcarries.route
    rw [show p.destination = .scanning by simpa [resolution, hdone] using htarget] at hroute
    by_cases hbegins : p.action.operation.scanMode = none
    · have hscanning := RadioState.scanning_of_stays hroute hbegins
      have hsame : t.radio.scanMode = some .full := by
        simpa [Controller.scanAfter, hdone, hcloses.operation, hbegins] using hscan
      rw [hrecorded, Pending.visit_eq_self] at hfull'
      · exact closing_settle (h.full hscanning hsame hfull') hscanning hcarries hpending hcloses
          htarget
      · rintro hscan
        simp [hcloses.operation.symm.trans hscan, Operation.scanMode] at hbegins
      · rintro hmode
        simp [hcloses.operation.symm.trans hmode, Operation.isPoll] at hpoll
    · obtain ⟨mode, hmode⟩ := Option.ne_none_iff_exists'.mp hbegins
      have hfullScan : p.action.operation = .fullScan := by
        rw [Controller.scanAfter, if_pos hdone, hcloses.operation, hmode] at hscan
        exact Operation.eq_fullScan (hmode.trans hscan)
      have hnone : progress.attributes.stations = [] := by
        rw [hrecorded, Pending.visit, hcloses.operation, hfullScan]
      rw [hnone] at hfull'
      exact (Nat.not_le_of_lt hcapacity hfull').elim

/-! ## Full scans on record -/

/-- Full scans that were not left go on, and the journal has counted what they met. -/
structure Surveyed (capacity : Nat) (t : Turn) : Prop where
  scan : ∀ during, t.journal.SurveyedSince during →
    t.radio.state = .scanning ∧ t.radio.scanMode = some .full
  counts : t.journal.Counts capacity
  surveys : t.journal.Each (Journal.Surveys capacity)

theorem Logged.stations (h : t.Logged) : t.radio.attributes.stations = t.journal.visited := by
  rw [h.attributes, Journal.attributes_stations]

theorem Surveyed.extend (h : t.Surveyed capacity) (hjournal : u.journal = t.journal ++ k)
    (hk : ∀ e ∈ k, e.marksScan = false)
    (hscan : t.radio.state = .scanning → t.radio.scanMode = some .full →
      (∀ e ∈ k, e.leavesScan = false) →
        u.radio.state = .scanning ∧ u.radio.scanMode = some .full) : u.Surveyed capacity := by
  have hunresolved : ∀ k' ⊆ k, ∀ p timedOut c, Entry.resolved p timedOut c ∉ k' :=
    fun k' hsub p timedOut c hmem ↦ by simpa [Entry.marksScan] using hk _ (hsub hmem)
  constructor
  · intro during hsurveyed
    rw [hjournal] at hsurveyed
    obtain ⟨earlier, rfl, hearlier, hleaves⟩ := hsurveyed.of_append (hunresolved k (fun _ h ↦ h))
    obtain ⟨hstate, hmode⟩ := h.scan earlier hearlier
    exact hscan hstate hmode hleaves
  · rw [hjournal]
    exact h.counts.append (hunresolved k (fun _ h ↦ h))
  · rw [hjournal]
    refine Journal.each_append h.surveys fun before x after hsplit ↦ ?_
    refine Journal.surveys_of_not_marksScan (hk x (by simp [hsplit])) (h.counts.append ?_)
    exact hunresolved before (fun e he ↦ by simp [hsplit, he])

theorem Taken.surveyed {r : Request} (htaken : Taken e t r u) (h : t.Surveyed capacity) :
    u.Surveyed capacity := by
  cases htaken with
  | queued => exact h.extend (take_journal ..) (by simp [Entry.marksScan]) fun hs hm _ ↦ ⟨hs, hm⟩
  | poll => exact h

/-- What begins is no poll for which there is no room, and the result that it reports is that of the
stations on record. -/
theorem Surveyed.launched (h : u.Surveyed capacity) (hlogged : u.Logged) {r : Request}
    {destination : RadioState} {plan : Plan}
    (hbuilt : Plan.Built u.radio.timing u.radio.attributes u.radio.scanMode r.operation plan)
    (hpoll : ∀ mode, r.operation = .pollScan mode → u.radio.scanMode = some .full →
      u.radio.attributes.stations.length < capacity) :
    (u.launched (u.radio.transition r destination plan.action) plan.notices).Surveyed capacity := by
  have hunresolved : ∀ (q : Pending) timedOut c, Entry.resolved q timedOut c ∉
      .begun (u.radio.transition r destination plan.action) u.radio ::
        plan.notices.map fun n ↦ Entry.effect (.notify n) := by simp
  have hjournal : (u.launched (u.radio.transition r destination plan.action)
      plan.notices).journal = u.journal ++
        .begun (u.radio.transition r destination plan.action) u.radio ::
          plan.notices.map fun n ↦ .effect (.notify n) := launch_journal ..
  constructor
  · intro during hsurveyed
    rw [hjournal] at hsurveyed
    obtain ⟨earlier, -, hearlier, -⟩ := hsurveyed.of_append hunresolved
    exact h.scan earlier hearlier
  · rw [hjournal]
    exact h.counts.append hunresolved
  · rw [hjournal]
    refine Journal.each_append h.surveys fun before x after hsplit ↦ ?_
    have hbefore : ∀ q timedOut c, Entry.resolved q timedOut c ∉ before := by
      intro q timedOut c hmem
      exact hunresolved q timedOut c (hsplit ▸ List.mem_append_left _ hmem)
    have hx : x ∈ _ :: plan.notices.map fun n ↦ Entry.effect (.notify n) :=
      hsplit ▸ List.mem_append_right before (by simp)
    have hcounts := (h.counts.append hbefore).append (k := [x]) fun q timedOut c hmem ↦ by
      cases List.mem_singleton.mp hmem
      exact hunresolved q timedOut c hx
    have hvisited : (u.journal ++ before).visited = u.radio.attributes.stations := by
      rw [Journal.visited_append, Journal.completed_of_unresolved hbefore, hlogged.stations]
      rfl
    refine ⟨hcounts, ?_, ?_, ?_⟩
    · rintro p c mode during rfl hmode hsurveyed
      obtain ⟨rfl, -⟩ : p = u.radio.transition r destination plan.action ∧ c = u.radio := by
        simpa using hx
      obtain ⟨earlier, -, hearlier, -⟩ := hsurveyed.of_append hbefore
      rw [hvisited]
      exact hpoll mode (hbuilt.action.1.symm.trans hmode) (h.scan earlier hearlier).2
    · rintro p timedOut c mode during rfl
      exact absurd hx (hunresolved p timedOut c)
    · rintro fs ss aborted rfl
      rw [hvisited]
      rcases hbuilt.notices with ⟨mode, late, -, hnotices⟩ | ⟨-, hnotices⟩
      · cases mode <;> simp [hnotices, Plan.scanNotice] at hx
        exact ⟨hx.1, hx.2.1⟩
      · simp [hnotices] at hx

section

variable {j : Journal} {c : Controller} {mode : ScanMode}

/-- A poll of a full scan that was done has read one station and added it. -/
theorem Concludes.finds (h : t.Concludes p progress) (hcarries : t.Carries p)
    (hstocked : t.radio.Stocked capacity) (hpending : t.radio.pending = some p)
    (hoperation : progress.action.operation = p.action.operation)
    (hscan : t.radio.scanMode = some .full) (hdone : progress.action.status = .done)
    (hpoll : p.action.operation = .pollScan mode) :
    progress.attributes.band = t.radio.attributes.band ∧
      ∃ stereo f level, progress.action.Decodes t.radio.attributes.band stereo f level ∧
        progress.attributes.stations = t.radio.attributes.stations ++ [⟨f, level⟩] := by
  have hfull : mode = .full := by
    have hmode := (hcarries.polled _ _ (hstocked.poll p mode hpending hpoll)).2
    exact Option.some.inj (hmode.symm.trans hscan)
  subst hfull
  obtain ⟨stereo, f, level, hdecodes⟩ := h.reads .full hdone hpoll
  rw [h.attributes, if_pos hdone]
  refine ⟨Attributes.record_band_of_poll (hoperation.trans hpoll), stereo, f, level, hdecodes, ?_⟩
  rw [Attributes.record_stations]
  exact Pending.visit_poll (hoperation.trans hpoll) hdecodes.readings.1

/-- Nothing else that ends while scanning touches the stations. -/
theorem Concludes.spares (h : t.Concludes p progress) (hcarries : t.Carries p)
    (hoperation : progress.action.operation = p.action.operation)
    (hstate : t.radio.state = .scanning)
    (hother : progress.action.status = .done → p.action.operation.isPoll = false) :
    progress.attributes.stations = t.radio.attributes.stations := by
  rw [h.attributes]
  split
  next hdone =>
    have hroute := hcarries.route
    rw [hstate] at hroute
    rw [Attributes.record_stations, Pending.visit_eq_self]
    · intro hscan
      have hbegins := (RadioState.of_accept_scanning hroute).2.2.1
      simp [hoperation.symm.trans hscan, Operation.scanMode] at hbegins
    · intro hpoll
      have hnot := hother hdone
      simp [hoperation.symm.trans hpoll, Operation.isPoll] at hnot
  next => rfl

theorem Concludes.visited (h : t.Concludes p progress)
    (hj : j.visited = t.radio.attributes.stations) :
    (j ++ [Entry.resolved { p with action := progress.action } timedOut c]).visited =
      progress.attributes.stations := by
  rw [Journal.visited_append, Journal.completed_resolved, h.attributes, hj]
  split
  next => rw [Attributes.record_stations, List.foldl_cons, List.foldl_nil]
  next => rfl

/-- The end of a transition within a full scan is counted. -/
theorem Concludes.counts (h : t.Concludes p progress) (hcarries : t.Carries p)
    (hstocked : t.radio.Stocked capacity) (hpending : t.radio.pending = some p)
    (hoperation : progress.action.operation = p.action.operation) (hj : j.Counts capacity)
    (hvisited : j.visited = t.radio.attributes.stations)
    (hscan : ∀ during, j.SurveyedSince during →
      t.radio.state = .scanning ∧ t.radio.scanMode = some .full) :
    (j ++ [Entry.resolved { p with action := progress.action } timedOut c]).Counts capacity := by
  refine ⟨?_, fun during hsurveyed ↦ ?_⟩
  · rw [h.visited hvisited]
    exact h.room hcarries hstocked hpending hoperation
  rw [h.visited hvisited]
  obtain ⟨d, hsince⟩ := hsurveyed
  rcases hsince.of_resolved (by simp) with ⟨-, rfl, hbegins, hdone⟩ | ⟨earlier, rfl, hearlier⟩
  · have hnone : progress.attributes.stations = [] := by
      rw [h.attributes, if_pos hdone, Attributes.record_stations, Pending.visit, hbegins]
    rw [hnone]
    rfl
  · obtain ⟨hstate, hmode⟩ := hscan earlier ⟨d, hearlier⟩
    rw [Journal.polled_append, List.length_append, hj.polls earlier ⟨d, hearlier⟩, hvisited]
    by_cases hpoll : progress.action.status = .done ∧ p.action.operation.isPoll = true
    · obtain ⟨mode, hoperation'⟩ := Operation.eq_of_isPoll hpoll.2
      obtain ⟨-, stereo, f, level, -, hstations⟩ :=
        h.finds hcarries hstocked hpending hoperation hmode hpoll.1 hoperation'
      rw [hstations]
      simp [Journal.polled, Journal.completed_resolved, hpoll, hoperation]
    · have hspares := h.spares hcarries hoperation hstate (by simpa using hpoll)
      rw [hspares]
      by_cases hdone : progress.action.status = .done <;>
        simp_all [Journal.polled, Journal.completed_resolved]

end

/-- A full scan goes on over whatever ends and does not leave it. -/
theorem full_of_settle (hcarries : t.Carries p)
    (hoperation : progress.action.operation = p.action.operation)
    (hstate : t.radio.state = .scanning) (hmode : t.radio.scanMode = some .full)
    (hleaves : ∀ x ∈ t.closing p progress armed timedOut, x.leavesScan = false) :
    (t.settle p progress armed timedOut).radio.state = .scanning ∧
      (t.settle p progress armed timedOut).radio.scanMode = some .full := by
  have htarget := target_of_closing hstate hleaves
  have hroute := hcarries.route
  rw [hstate] at hroute
  have hbegins := (RadioState.of_accept_scanning hroute).2.2.1
  refine ⟨by simp [Controller.resolved, htarget], ?_⟩
  simp [Controller.resolved, htarget, Controller.scanAfter, hoperation, hbegins, hmode]

theorem full_of_fullScan (hcarries : t.Carries p)
    (hoperation : progress.action.operation = p.action.operation)
    (hbegins : p.action.operation = .fullScan) (hdone : progress.action.status = .done) :
    (t.settle p progress armed timedOut).radio.state = .scanning ∧
      (t.settle p progress armed timedOut).radio.scanMode = some .full := by
  have hroute := hcarries.route
  rw [hbegins] at hroute
  have hdestination : p.destination = .scanning := by
    cases hstate : t.radio.state <;>
      simp_all [route, Route.whenIdle, Route.whenOn, Route.whenScanning]
  have htarget : (resolution { p with action := progress.action } timedOut).1 = .scanning := by
    simpa [resolution, hdone] using hdestination
  refine ⟨by simp [Controller.resolved, htarget], ?_⟩
  simp [Controller.resolved, htarget, Controller.scanAfter, hdone, hoperation, hbegins,
    Operation.scanMode]

theorem not_marksScan_closing (t : Turn) (p : Pending) (progress : Progress)
    (armed timedOut : Bool) : ∀ x ∈ t.closing p progress armed timedOut, x.marksScan = false := by
  intro x hx
  rcases List.mem_append.mp hx with hx | hx
  · exact Journal.not_marksScan_ofProgress _ _ x hx
  · refine Journal.not_marksScan_of_plain ?_ (Journal.quiet_ofFinish _ _ _ _ x hx).2
    refine Journal.plain_ofEnd (t.settling progress) { p with action := progress.action } armed
      timedOut x ?_
    rw [Journal.ofEnd_eq]
    exact List.mem_append_left _ hx

theorem Surveyed.settle (h : t.Surveyed capacity) (hlogged : t.Logged)
    (hstocked : t.radio.Stocked capacity) (hcarries : t.Carries p)
    (hpending : t.radio.pending = some p)
    (hoperation : progress.action.operation = p.action.operation)
    (hconcludes : t.Concludes p progress) :
    (t.settle p progress armed timedOut).Surveyed capacity := by
  have hmarks := t.not_marksScan_closing p progress armed timedOut
  have hclosing := t.not_mem_closing p progress armed timedOut
  have hvisited : (t.journal ++ t.closing p progress armed timedOut).visited =
      t.radio.attributes.stations := by
    rw [Journal.visited_append, Journal.completed_of_unresolved hclosing, hlogged.stations]
    rfl
  have hscan : ∀ during, (t.journal ++ t.closing p progress armed timedOut).SurveyedSince during →
      t.radio.state = .scanning ∧ t.radio.scanMode = some .full := by
    intro during hsurveyed
    obtain ⟨earlier, -, hearlier, -⟩ := hsurveyed.of_append hclosing
    exact h.scan earlier hearlier
  have hcounts : (t.journal ++ t.closing p progress armed timedOut ++
      [Entry.resolved { p with action := progress.action } timedOut
        (t.settle p progress armed timedOut).radio]).Counts capacity :=
    hconcludes.counts hcarries hstocked hpending hoperation (h.counts.append hclosing) hvisited hscan
  have hreport : ∀ x ∈ Journal.ofReport p.request
      (resolution { p with action := progress.action } timedOut).2, x.marksScan = false := by
    cases p.request <;> simp [Journal.ofReport, Entry.marksScan]
  have hunresolved : ∀ q late c, Entry.resolved q late c ∉ Journal.ofReport p.request
      (resolution { p with action := progress.action } timedOut).2 := fun q late c hmem ↦ by
    simpa [Entry.marksScan] using hreport _ hmem
  have hjournal := t.settle_closing p progress armed timedOut
  rw [List.append_cons] at hjournal
  constructor
  · intro during hsurveyed
    rw [hjournal] at hsurveyed
    obtain ⟨middle, -, ⟨c, hmiddle⟩, -⟩ := hsurveyed.of_append hunresolved
    rcases hmiddle.of_resolved (by simp) with ⟨-, -, hbegins, hdone⟩ | ⟨earlier, -, hearlier⟩
    · exact full_of_fullScan hcarries hoperation (hoperation.symm.trans hbegins) hdone
    · obtain ⟨earliest, -, hearliest, hleaves⟩ := hearlier.of_append hclosing
      obtain ⟨hstate, hmode⟩ := h.scan earliest ⟨c, hearliest⟩
      exact full_of_settle hcarries hoperation hstate hmode hleaves
  · rw [hjournal]
    exact hcounts.append hunresolved
  · rw [hjournal]
    refine Journal.each_append (Journal.each_snoc (Journal.each_append h.surveys ?_) ?_) ?_
    · intro before x after hsplit
      refine Journal.surveys_of_not_marksScan (hmarks x (by simp [hsplit])) (h.counts.append ?_)
      exact fun q late c hmem ↦ hclosing q late c (by simp [hsplit, hmem])
    · refine ⟨hcounts, by simp, ?_, by simp⟩
      rintro q late c mode during ⟨⟩ hdone hpoll hsurveyed
      obtain ⟨-, hmode⟩ := hscan during hsurveyed
      obtain ⟨hband, hfound⟩ := hconcludes.finds hcarries hstocked hpending hoperation hmode hdone
        (hoperation.symm.trans hpoll)
      rw [hvisited]
      simpa [Controller.resolved, hband] using hfound
    · intro before x after hsplit
      refine Journal.surveys_of_not_marksScan (hreport x (by simp [hsplit])) (hcounts.append ?_)
      exact fun q late c hmem ↦ hunresolved q late c (by simp [hsplit, hmem])

/-! ## Moves -/

theorem Move.stocked (hmove : Move accepts e t u) (h : t.radio.Stocked capacity)
    (hcapacity : 1 ≤ capacity) (hscans : t.Scans) (haccounts : t.Accounts)
    (hsteady : t.radio.Steady) (hrested : e ≠ none → t.radio.Rested) :
    u.radio.Stocked capacity := by
  cases hmove with
  | ready hstate =>
      refine ⟨by simpa using h.limit, by simpa using h.room, ?_, fun hidle ↦ by simp at hidle⟩
      simpa using h.poll
  | arrive r =>
      exact ⟨h.limit, h.room, h.poll, fun hstate hmode hfull ↦
        (h.full hstate hmode hfull).queued rfl rfl⟩
  | @decline _ _ v r outcome htaken hdecline =>
      rw [report_radio]
      cases htaken with
      | queued hpending hqueue =>
          refine ⟨h.limit, h.room, h.poll, fun hstate hmode hfull ↦ ?_⟩
          exact (h.full hstate hmode hfull).declined hpending hqueue (hdecline.endsScan hstate)
            hpending rfl
      | poll => exact h
  | @begin _ _ v r destination plan _ htaken hroute hplan hbegins hstatus =>
      have hlaunched : (v.launched (v.radio.transition r destination plan.action)
          plan.notices).radio.Stocked capacity :=
        stocked_launched h hscans hrested htaken (Plan.built_of_build hplan)
      have hattributes := (resumes_of_begins (p := v.radio.transition r destination plan.action)
        hbegins hstatus).attributes
      have hhold := stocked_hold hlaunched rfl hbegins.same hattributes
      rw [launched_hold] at hhold
      exact ⟨hhold.limit, hhold.room, hhold.poll, hhold.full⟩
  | @flash _ _ v r destination plan progress htaken hroute hplan hbegins hstatus =>
      have hbuilt := Plan.built_of_build hplan
      have hlaunched : (v.launched (v.radio.transition r destination plan.action)
          plan.notices).radio.Stocked capacity := stocked_launched h hscans hrested htaken hbuilt
      have hcarries := (hscans.launched hrested htaken hroute hplan).carries _ rfl
      have hconcludes := (htaken.records hroute hplan).concludes
        (htaken.accounts_launch haccounts).1 hbegins.same
        (Account.ends_of_begins (opened_exchanges ..) hbegins hstatus _)
      rw [← launched_settle]
      exact stocked_settle hlaunched hcapacity hcarries rfl (closes_of_begins hbuilt hbegins hstatus)
        ⟨hconcludes.attributes, hconcludes.reads⟩ (fills_of_begins hbegins)
  | @advance _ p _ _ hpending hadvances hstatus =>
      exact stocked_hold h hpending hadvances.same
        (resumes_of_advances hadvances hstatus).attributes
  | @finish _ p _ _ hpending hadvances hstatus =>
      have hcarries := hscans.carries p hpending
      obtain ⟨x, before, hrecords, hends⟩ := haccounts.finish hpending hadvances hstatus
      exact stocked_settle h hcapacity hcarries hpending
        (closes_of_advances hcarries.reads (hsteady p hpending) hadvances hstatus)
        (hrecords.concludes haccounts.scope hadvances.same hends)
        (fills_of_advances hadvances (hsteady p hpending))
  | @expire _ p hpending =>
      obtain ⟨x, before, hrecords, hends⟩ := haccounts.expire hpending _
      exact stocked_settle h hcapacity (hscans.carries p hpending) hpending
        ⟨rfl, by simp, .inl rfl⟩ (hrecords.concludes haccounts.scope ⟨rfl, rfl⟩ hends)
        (fun _ _ _ hdone ↦ by simp at hdone)

theorem Move.surveyed (hmove : Move accepts e t u) (h : t.Surveyed capacity)
    (hstocked : t.radio.Stocked capacity) (hlogged : t.Logged) (hscans : t.Scans)
    (haccounts : t.Accounts) (hrested : e ≠ none → t.radio.Rested) : u.Surveyed capacity := by
  have hlaunched : ∀ {r : Request} {v : Turn} {destination : RadioState} {plan : Plan},
      Taken e t r v → Plan.Built v.radio.timing v.radio.attributes v.radio.scanMode r.operation plan →
        (v.launched (v.radio.transition r destination plan.action) plan.notices).Surveyed capacity := by
    intro r v destination plan htaken hbuilt
    refine (htaken.surveyed h).launched (htaken.logged hlogged) hbuilt fun mode hmode hfull ↦ ?_
    cases htaken with
    | @queued _ q _ _ hpending hqueue =>
        have hmem : .queued q ∈ t.journal :=
          Journal.queued_of_waiting (hscans.queue ▸ by simp [hqueue])
        exact (hscans.polls q mode hmem hmode).elim
    | poll hpending hstate => exact lt_of_rested hstocked (hrested (by simp)) hpending hstate hfull
  cases hmove with
  | ready hstate =>
      have hjournal := enter_journal (t := t) .idle
      rw [List.append_assoc] at hjournal
      refine h.extend hjournal (fun x hx ↦ ?_) fun hscanning ↦ by simp [hstate] at hscanning
      simp [hstate, Journal.ofChange, Journal.ofPoll] at hx
      rcases hx with rfl | rfl <;> rfl
  | arrive r =>
      exact h.extend (enqueue_journal ..) (by simp [Entry.marksScan]) fun hs hm _ ↦ ⟨hs, hm⟩
  | @decline _ _ v r outcome htaken hdecline =>
      refine (htaken.surveyed h).extend (report_journal ..) ?_ fun hs hm _ ↦ by simp [hs, hm]
      cases r.id <;> simp [Journal.ofReport, Entry.marksScan]
  | @begin _ _ v r destination plan progress htaken hroute hplan hbegins hstatus =>
      have hhold : (((v.launch (v.radio.transition r destination plan.action) plan.notices).hold
          (v.radio.transition r destination plan.action) progress)).Surveyed capacity := by
        rw [← launched_hold]
        exact (hlaunched htaken (Plan.built_of_build hplan)).extend (hold_journal ..)
          (Journal.not_marksScan_ofProgress _ _) fun hs hm _ ↦ by simp [hs, hm]
      exact hhold.extend (emit_journal ..) (by simp [Entry.marksScan]) fun hs hm _ ↦ ⟨hs, hm⟩
  | @flash _ _ v r destination plan progress htaken hroute hplan hbegins hstatus =>
      have hbuilt := Plan.built_of_build hplan
      have hconcludes := (htaken.records hroute hplan).concludes
        (htaken.accounts_launch haccounts).1 hbegins.same
        (Account.ends_of_begins (opened_exchanges ..) hbegins hstatus _)
      have hlog := (htaken.logged hlogged).launch (v.radio.transition r destination plan.action)
        plan.notices
      rw [← launched_settle]
      exact (hlaunched htaken hbuilt).settle ⟨hlog.attributes, hlog.logs⟩
        (stocked_launched hstocked hscans hrested htaken hbuilt)
        ((hscans.launched hrested htaken hroute hplan).carries _ rfl) rfl hbegins.same.1
        ⟨hconcludes.attributes, hconcludes.reads⟩
  | @advance _ p _ _ hpending hadvances hstatus =>
      exact h.extend (hold_journal ..) (Journal.not_marksScan_ofProgress _ _)
        fun hs hm _ ↦ by simp [hs, hm]
  | @finish _ p _ _ hpending hadvances hstatus =>
      obtain ⟨x, before, hrecords, hends⟩ := haccounts.finish hpending hadvances hstatus
      exact h.settle hlogged hstocked (hscans.carries p hpending) hpending hadvances.same.1
        (hrecords.concludes haccounts.scope hadvances.same hends)
  | @expire _ p hpending =>
      obtain ⟨x, before, hrecords, hends⟩ := haccounts.expire hpending _
      exact h.settle hlogged hstocked (hscans.carries p hpending) hpending rfl
        (hrecords.concludes haccounts.scope ⟨rfl, rfl⟩ hends)

end Turn

variable {timing : Timing} {script : List (Event × (Call → Bool))} {t : Turn}

theorem Controller.run_surveyed (hcapacity : 1 ≤ timing.maxStations)
    (hclients : ∀ r accepts, (.request r, accepts) ∈ script → r.operation.isClient = true)
    (h : (initial timing).run script = .ok t) :
    t.radio.Stocked timing.maxStations ∧ t.Surveyed timing.maxStations ∧ t.Logged := by
  have hnothing : ∀ during, ¬ Journal.SurveyedSince [] during := by
    rintro during ⟨c, before, p, timedOut, hsplit, -⟩
    simp at hsplit
  have hstocked : (initial timing).Stocked timing.maxStations :=
    ⟨rfl, Nat.zero_le _, by simp [initial], by simp [initial]⟩
  have hsurveyed : Turn.Surveyed timing.maxStations { radio := initial timing } := by
    refine ⟨fun during hsince ↦ (hnothing during hsince).elim,
      ⟨Nat.zero_le _, fun during hsince ↦ (hnothing during hsince).elim⟩, ?_⟩
    intro earlier e later hsplit
    simp at hsplit
  have hrun := run_induction
    (P := fun t ↦ (t.radio.Stocked timing.maxStations ∧ t.Surveyed timing.maxStations ∧ t.Logged) ∧
      t.Accounts ∧ t.Scans)
    ⟨⟨hstocked, hsurveyed, initial_logged timing⟩, initial_accounts timing, initial_scans timing⟩
    ?_ ?_ h
  · exact hrun.1.1
  · rintro event accepts t u hmem ⟨⟨hstocked, hsurveyed, hlogged⟩, haccounts, hscans⟩ hsteady hrested
      hmove
    refine ⟨⟨hmove.stocked hstocked hcapacity hscans haccounts hsteady fun _ ↦ hrested,
      hmove.surveyed hsurveyed hstocked hlogged hscans haccounts fun _ ↦ hrested,
      hmove.logged haccounts hlogged⟩, hmove.accounts haccounts,
      hmove.scans hscans hsteady (fun _ ↦ hrested) fun r hr ↦ ?_⟩
    cases hr
    exact hclients r accepts hmem
  · rintro accepts t u ⟨⟨hstocked, hsurveyed, hlogged⟩, haccounts, hscans⟩ hsteady hmove
    exact ⟨⟨hmove.stocked hstocked hcapacity hscans haccounts hsteady (by simp),
      hmove.surveyed hsurveyed hstocked hlogged hscans haccounts (by simp),
      hmove.logged haccounts hlogged⟩, hmove.accounts haccounts,
      hmove.scans hscans hsteady (by simp) (by simp)⟩

/-- As long as clients ask only for what is theirs to ask for, the station list stays within its
capacity, after every run and wherever the journal shows the controller. Within a full scan each
poll that was done has added one station, the one that it read, so that there are at most as many of
them as there is room for; no poll begins when the list is full. Every result of a full scan lists
the stations in the order in which they were met, each with its signal. -/
theorem full_scan_fits_station_list (hcapacity : 1 ≤ timing.maxStations)
    (hclients : ∀ r accepts, (.request r, accepts) ∈ script → r.operation.isClient = true)
    (h : (Controller.initial timing).run script = .ok t) :
    (t.radio.attributes.stations = t.journal.visited ∧
      ∀ (earlier : Journal) e later c, t.journal = earlier ++ e :: later → e.controller? = some c →
        c.attributes.stations = (earlier ++ [e]).visited) ∧
    (∀ earlier later : Journal, t.journal = earlier ++ later →
      earlier.visited.length ≤ timing.maxStations ∧
        ∀ during, earlier.SurveyedSince during → during.polled.length = earlier.visited.length) ∧
    (∀ (earlier : Journal) p timedOut c later mode during,
      t.journal = earlier ++ .resolved p timedOut c :: later → p.action.status = .done →
        p.action.operation = .pollScan mode → earlier.SurveyedSince during →
          ∃ stereo f level, p.action.Decodes c.attributes.band stereo f level ∧
            c.attributes.stations = earlier.visited ++ [⟨f, level⟩]) ∧
    (∀ (earlier : Journal) p c later mode during, t.journal = earlier ++ .begun p c :: later →
      p.action.operation = .pollScan mode → earlier.SurveyedSince during →
        earlier.visited.length < timing.maxStations) ∧
    (∀ (earlier : Journal) fs ss aborted later,
      t.journal = earlier ++ .effect (.notify (.fullScanResult fs ss aborted)) :: later →
        fs = earlier.visited.map Station.freq ∧ ss = earlier.visited.map Station.signal ∧
          fs.length = ss.length) := by
  obtain ⟨-, hsurveyed, hlogged⟩ := Controller.run_surveyed hcapacity hclients h
  have hentry := fun (earlier : Journal) e later (hsplit : t.journal = earlier ++ e :: later) ↦
    hsurveyed.surveys earlier e later hsplit
  refine ⟨⟨hlogged.stations, fun earlier e later c hsplit hc ↦ ?_⟩, fun earlier later hsplit ↦ ?_,
    fun earlier p timedOut c later mode during hsplit ↦ ?_,
    fun earlier p c later mode during hsplit ↦ ?_, fun earlier fs ss aborted later hsplit ↦ ?_⟩
  · rw [hlogged.logs earlier e later hsplit c hc, Journal.attributes_stations]
  · rcases List.eq_nil_or_concat' earlier with rfl | ⟨before, e, rfl⟩
    · refine ⟨Nat.zero_le _, ?_⟩
      rintro during ⟨c, before, p, timedOut, hnil, -⟩
      simp at hnil
    · have hcounts := (hentry before e later (by simpa using hsplit)).counts
      exact ⟨hcounts.room, hcounts.polls⟩
  · exact (hentry earlier _ later hsplit).finds p timedOut c mode during rfl
  · exact (hentry earlier _ later hsplit).begins p c mode during rfl
  · obtain ⟨hfs, hss⟩ := (hentry earlier _ later hsplit).reports fs ss aborted rfl
    exact ⟨hfs, hss, by rw [hfs, hss, List.length_map, List.length_map]⟩

/-- A full scan with room for one station, which its first poll finds. -/
def fullAfterOne : List (Event × (Call → Bool)) :=
  [.ready, .request ⟨none, .start .europeUs⟩, .callback (.power true),
    .callback (.vendor 0xfc15 [0, 0, 0]), .callback .delayElapsed,
    .callback (.vendor 0xfc15 [0, 1, 0]), .callback (.vendor 0xfc15 [0, 5, 0]),
    .request ⟨none, .fullScan⟩, .callback (.vendor 0xfc15 [0, 10, 0]),
    .callback (.vendor 0xfc15 [0, 7, 0]), .callback (.vendor 0xfc15 [0, 9, 0]), .pollDue 2,
    .callback (.vendor 0xfc15 [0, 18, 1, 1, 0]), .callback (.vendor 0xfc15 [0, 10, 1, 192, 93]),
    .callback (.vendor 0xfc15 [0, 15, 1, 70]), .callback (.vendor 0xfc15 [0, 10, 0]),
    .callback (.vendor 0xfc15 [0, 9, 0])].map fun event ↦ (event, fun _ ↦ true)

/-- The poll that finds the station leaves no room for another. It is the only one, and what it has
found is reported. -/
theorem one_station_fills_list :
    ∃ t earlier later during, (Controller.initial { maxStations := 1 }).run fullAfterOne = .ok t ∧
      1 ≤ ({ maxStations := 1 } : Timing).maxStations ∧
      (∀ r accepts, (.request r, accepts) ∈ fullAfterOne → r.operation.isClient = true) ∧
        t.journal = earlier ++ .effect (.notify (.fullScanResult [⟨88000⟩] [70] false)) :: later ∧
          Journal.SurveyedSince earlier during ∧
            Journal.visited earlier = [⟨⟨88000⟩, 70⟩] ∧ (Journal.polled during).length = 1 := by
  obtain ⟨t, hrun, hsplit, hend, hleaves, hvisited⟩ : ∃ t,
      (Controller.initial { maxStations := 1 }).run fullAfterOne = .ok t ∧
        t.journal = t.journal.take 50 ++
          .effect (.notify (.fullScanResult [⟨88000⟩] [70] false)) :: t.journal.drop 51 ∧
        (t.journal.take 50)[34]?.any (Entry.endsWell .fullScan) = true ∧
          (∀ e ∈ (t.journal.take 50).drop 35, e.leavesScan = false) ∧
            Journal.visited (t.journal.take 50) = [⟨⟨88000⟩, 70⟩] := by
    refine ⟨_, rfl, ?_, ?_, ?_, ?_⟩ <;> decide
  obtain ⟨c, hsince⟩ := Journal.exists_doneSince hend hleaves
  have hclients : ∀ r accepts, (.request r, accepts) ∈ fullAfterOne → r.operation.isClient = true := by
    have hall : ∀ x ∈ fullAfterOne, ∀ r, x.1 = .request r → r.operation.isClient = true := by
      simp [fullAfterOne, Operation.isClient]
    exact fun r accepts hmem ↦ hall _ hmem r rfl
  obtain ⟨-, hcounts, -⟩ := full_scan_fits_station_list le_rfl hclients hrun
  have hpolled := (hcounts _ _ hsplit).2 _ ⟨c, hsince⟩
  rw [hvisited] at hpolled
  exact ⟨t, _, _, _, hrun, le_rfl, hclients, hsplit, ⟨c, hsince⟩, hvisited, hpolled⟩

end FmTuner
