import FmTuner.Proofs.AttributeLog
import FmTuner.Proofs.StopViews

/-!
# What a journal says about full scans

`Journal.visited` plays back the station list from the transitions that were done, and
`Journal.SurveyedSince` finds the full scan going on. `Journal.Surveys` says what an entry has to
answer for in the light of it.
-/

namespace FmTuner

/-- The stations after a transition that was done. A full scan forgets them, and each of its polls
adds the one that it has read. -/
def Pending.visit (stations : List Station) (p : Pending) : List Station :=
  match p.action.operation with
  | .fullScan => []
  | .pollScan .full =>
      match p.action.polled? with
      | some (_, f, level) => stations ++ [⟨f, level⟩]
      | none => stations
  | _ => stations

def Operation.isPoll : Operation → Bool
  | .pollScan _ => true
  | _ => false

theorem Operation.eq_of_isPoll {operation : Operation} (h : operation.isPoll = true) :
    ∃ mode, operation = .pollScan mode := by
  cases operation with
  | pollScan mode => exact ⟨mode, rfl⟩
  | _ => simp [isPoll] at h

theorem Operation.eq_fullScan {operation : Operation} (h : operation.scanMode = some .full) :
    operation = .fullScan := by
  cases operation with
  | fullScan => rfl
  | _ => simp [scanMode] at h

/-- Only the beginning of a scan takes the radio to the scanning state. -/
theorem RadioState.scanning_of_stays {state : RadioState} {operation : Operation}
    (h : route state operation = .accept .scanning) (hbegins : operation.scanMode = none) :
    state = .scanning := by
  cases state <;> cases operation <;>
    simp_all [route, Route.whenIdle, Route.whenOn, Operation.setsProperty, Operation.scanMode]

/-- Whether an entry is the beginning or the end of a transition or the result of a full scan. -/
def Entry.marksScan : Entry → Bool
  | .begun .. | .resolved .. | .effect (.notify (.fullScanResult ..)) => true
  | _ => false

theorem Attributes.record_stations (a : Attributes) (p : Pending) :
    (a.record p).stations = p.visit a.stations := by
  rw [record, Pending.visit]
  cases p.action.operation with
  | pollScan mode =>
      cases hpolled : p.action.polled? with
      | none => cases mode <;> rfl
      | some reading => cases mode <;> rfl
  | _ => rfl

namespace Pending

variable {stations : List Station} {p : Pending} {mode : ScanMode}

theorem length_visit_le (stations : List Station) (p : Pending) :
    (p.visit stations).length ≤ stations.length + 1 := by
  unfold visit
  split
  · simp
  · split <;> simp
  · simp

theorem visit_eq_self (hscan : p.action.operation ≠ .fullScan)
    (hpoll : p.action.operation ≠ .pollScan .full) : p.visit stations = stations := by
  unfold visit
  split
  next h => exact (hscan h).elim
  next h => exact (hpoll h).elim
  next => rfl

theorem visit_poll {stereo : Bool} {f : Freq} {level : UInt8}
    (hoperation : p.action.operation = .pollScan .full)
    (hpolled : p.action.polled? = some (stereo, f, level)) :
    p.visit stations = stations ++ [⟨f, level⟩] := by
  rw [visit, hoperation]
  simp [hpolled]

end Pending

namespace Journal

/-- The stations met since the last full scan began, in the order of the polls that read them. -/
def visited (j : Journal) : List Station :=
  j.completed.foldl (fun stations p ↦ p.visit stations) []

/-- The polls that were done. -/
def polled (j : Journal) : List Pending := j.completed.filter fun p ↦ p.action.operation.isPoll

/-- A full scan has begun, and the scan was not left in what has happened since. -/
def SurveyedSince (j during : Journal) : Prop := ∃ c, j.DoneSince .fullScan c during

/-- The stations are as many as the polls of the full scan going on, and there is room for them. -/
structure Counts (capacity : Nat) (j : Journal) : Prop where
  room : j.visited.length ≤ capacity
  polls : ∀ during, j.SurveyedSince during → during.polled.length = j.visited.length

/-- What is true of an entry in the light of the full scan that it belongs to. -/
structure Surveys (capacity : Nat) (earlier : Journal) (e : Entry) : Prop where
  counts : (earlier ++ [e]).Counts capacity
  begins : ∀ p c mode during, e = .begun p c → p.action.operation = .pollScan mode →
    earlier.SurveyedSince during → earlier.visited.length < capacity
  finds : ∀ p timedOut c mode during, e = .resolved p timedOut c → p.action.status = .done →
    p.action.operation = .pollScan mode → earlier.SurveyedSince during →
      ∃ stereo f level, p.action.Decodes c.attributes.band stereo f level ∧
        c.attributes.stations = earlier.visited ++ [⟨f, level⟩]
  reports : ∀ fs ss aborted, e = .effect (.notify (.fullScanResult fs ss aborted)) →
    fs = earlier.visited.map Station.freq ∧ ss = earlier.visited.map Station.signal

variable {j k during : Journal} {capacity : Nat}

theorem visited_append (j k : Journal) :
    (j ++ k).visited = k.completed.foldl (fun stations p ↦ p.visit stations) j.visited := by
  simp [visited]

@[simp] theorem polled_append (j k : Journal) : polled (j ++ k) = polled j ++ polled k := by
  simp [polled]

/-- The stations on record are those of the attributes on record. -/
theorem attributes_stations (j : Journal) : j.attributes.stations = j.visited := by
  have hfold : ∀ (ps : List Pending) (a : Attributes), (ps.foldl Attributes.record a).stations =
      ps.foldl (fun stations p ↦ p.visit stations) a.stations := by
    intro ps
    induction ps with
    | nil => exact fun _ ↦ rfl
    | cons p rest ih =>
        intro a
        rw [List.foldl_cons, List.foldl_cons, ih, Attributes.record_stations]
  exact hfold j.completed {}

theorem completed_of_unresolved (h : ∀ p timedOut c, .resolved p timedOut c ∉ k) :
    k.completed = [] := by
  rw [completed, List.filterMap_eq_nil_iff]
  intro e he
  cases e with
  | resolved p timedOut c => exact (h p timedOut c he).elim
  | _ => rfl

theorem completed_resolved (p : Pending) (timedOut : Bool) (c : Controller) :
    completed [.resolved p timedOut c] = if p.action.status = .done then [p] else [] := by
  by_cases hdone : p.action.status = .done <;> simp [completed, Entry.done?, hdone]

theorem SurveyedSince.of_append (h : (j ++ k).SurveyedSince during)
    (hk : ∀ p timedOut c, .resolved p timedOut c ∉ k) :
    ∃ earlier, during = earlier ++ k ∧ j.SurveyedSince earlier ∧
      ∀ e ∈ k, e.leavesScan = false := by
  obtain ⟨c, hdone⟩ := h
  obtain ⟨earlier, rfl, hearlier, hleaves⟩ := hdone.of_append hk
  exact ⟨earlier, rfl, ⟨c, hearlier⟩, hleaves⟩

/-- Where nothing ends, nothing is counted. -/
theorem Counts.append (h : j.Counts capacity) (hk : ∀ p timedOut c, .resolved p timedOut c ∉ k) :
    (j ++ k).Counts capacity := by
  have hnone := completed_of_unresolved hk
  have hvisited : (j ++ k).visited = j.visited := by simp [visited_append, hnone]
  refine ⟨hvisited.symm ▸ h.room, fun during hsurveyed ↦ ?_⟩
  obtain ⟨earlier, rfl, hearlier, -⟩ := hsurveyed.of_append hk
  rw [polled_append, hvisited, ← h.polls earlier hearlier]
  simp [polled, hnone]

/-- What neither begins nor ends anything and reports no stations has nothing to answer for. -/
theorem surveys_of_not_marksScan {e : Entry} (h : e.marksScan = false) {earlier : Journal}
    (hcounts : earlier.Counts capacity) : Surveys capacity earlier e := by
  constructor
  · refine hcounts.append fun p timedOut c hmem ↦ ?_
    cases List.mem_singleton.mp hmem
    simp [Entry.marksScan] at h
  · rintro p c mode during rfl
    simp [Entry.marksScan] at h
  · rintro p timedOut c mode during rfl
    simp [Entry.marksScan] at h
  · rintro fs ss aborted rfl
    simp [Entry.marksScan] at h

theorem not_marksScan_ofProgress (first : Nat) (progress : Progress) :
    ∀ e ∈ ofProgress first progress, e.marksScan = false := by
  simp +contextual [ofProgress, or_imp, forall_and, Entry.marksScan]

theorem not_marksScan_of_plain {e : Entry} (hplain : e.isPlain = true)
    (hquiet : e.isMilestone = false) : e.marksScan = false := by
  cases e with
  | effect f =>
      cases f with
      | notify n =>
          cases n with
          | fullScanResult => simp [Entry.isPlain, Notification.isScanResult] at hplain
          | _ => rfl
      | _ => rfl
  | begun => simp [Entry.isMilestone] at hquiet
  | resolved => simp [Entry.isMilestone] at hquiet
  | _ => rfl

end Journal

end FmTuner
