import FmTuner.Proofs.Backlog
import FmTuner.Proofs.TurnViews

/-!
# What a journal says about scans

A scan lasts from the entry into the scanning state until that is left. `Journal.view` reads off a
journal which requests wait, how many scans have begun, which scan was asked for last and whether it
has been stopped.
-/

namespace FmTuner

def Notification.isScanResult : Notification → Bool
  | .scanResult .. | .fullScanResult .. => true
  | _ => false

structure ScanView where
  /-- The requests that have joined the queue and not left it. -/
  waiting : List Queued := []
  /-- How many scans have begun. -/
  scans : Nat := 0
  /-- The mode of the scan that was carried out last. -/
  mode : Option ScanMode := none
  /-- Whether the last scan to begin has been stopped. -/
  stopped : Bool := false

namespace ScanView

def note (v : ScanView) : Entry → ScanView
  | .queued q => { v with waiting := v.waiting ++ [q] }
  | .dispatched q _ _ => { v with waiting := v.waiting.erase q }
  | .effect (.notify (.stateChanged _ .scanning)) =>
      { v with scans := v.scans + 1, stopped := false }
  | .resolved p _ _ =>
      if p.action.status = .done then
        { v with
          mode := p.action.operation.scanMode.or v.mode
          stopped := v.stopped || p.action.operation = .stopScan }
      else v
  | _ => v

def change (v : ScanView) (old new : RadioState) : ScanView :=
  if RadioState.enters old new = 0 then v else { v with scans := v.scans + 1, stopped := false }

@[simp] theorem change_waiting (v : ScanView) (old new : RadioState) :
    (v.change old new).waiting = v.waiting := by
  unfold change
  split <;> rfl

@[simp] theorem change_mode (v : ScanView) (old new : RadioState) :
    (v.change old new).mode = v.mode := by
  unfold change
  split <;> rfl

@[simp] theorem change_scans (v : ScanView) (old new : RadioState) :
    (v.change old new).scans = v.scans + RadioState.enters old new := by
  unfold change RadioState.enters
  split <;> split <;> simp_all

theorem note_resolved (v : ScanView) (p : Pending) (timedOut : Bool) (c : Controller) :
    v.note (.resolved p timedOut c) =
      if p.action.status = .done then
        { v with
          mode := p.action.operation.scanMode.or v.mode
          stopped := v.stopped || p.action.operation = .stopScan }
      else v := rfl

theorem note_scans (v : ScanView) (e : Entry) :
    (v.note e).scans = v.scans + (note {} e).scans := by
  cases e with
  | resolved p timedOut c => by_cases h : p.action.status = .done <;> simp [note, h]
  | effect f =>
      cases f with
      | notify n =>
          cases n with
          | stateChanged old new => cases new <;> rfl
          | _ => rfl
      | _ => rfl
  | _ => rfl

theorem mem_note_waiting {v : ScanView} {e : Entry} {q : Queued} (h : q ∈ (v.note e).waiting) :
    q ∈ v.waiting ∨ e = .queued q := by
  cases e with
  | queued r =>
      rw [note, List.mem_append, List.mem_singleton] at h
      rcases h with h | rfl
      · exact .inl h
      · exact .inr rfl
  | dispatched r passed c => exact .inl (List.mem_of_mem_erase h)
  | resolved p timedOut c =>
      rw [note_resolved] at h
      split at h <;> exact .inl h
  | effect f =>
      cases f with
      | notify n =>
          cases n with
          | stateChanged old new => cases new <;> exact .inl h
          | _ => exact .inl h
      | _ => exact .inl h
  | _ => exact .inl h

end ScanView

/-- Entries that no view takes notice of. -/
def Entry.isSilent : Entry → Bool
  | .exchanged _ | .begun .. => true
  | .effect (.notify (.stateChanged _ .scanning)) => false
  | .effect _ => true
  | _ => false

/-- Entries that neither concern the queue nor begin or report anything. -/
def Entry.isPlain : Entry → Bool
  | .exchanged _ | .resolved .. => true
  | .effect (.notify n) => !n.isScanResult
  | .effect _ => true
  | _ => false

namespace Journal

def view (j : Journal) : ScanView := j.foldl ScanView.note {}

/-- How many scans have begun. -/
def scans (j : Journal) : Nat := j.view.scans

/-- What the requests that wait ask for. -/
def backlog (j : Journal) : List Operation := j.view.waiting.map fun q ↦ q.request.operation

theorem view_append (j k : Journal) : (j ++ k).view = k.foldl ScanView.note j.view := by
  rw [view, List.foldl_append, ← view]

theorem foldl_scans (k : Journal) (v : ScanView) :
    (k.foldl ScanView.note v).scans = v.scans + k.scans := by
  induction k generalizing v with
  | nil => rfl
  | cons e rest ih =>
      rw [scans, view, List.foldl_cons, List.foldl_cons, ih, ih, ScanView.note_scans v e,
        Nat.add_assoc]

@[simp] theorem scans_append (j k : Journal) : (j ++ k).scans = j.scans + k.scans := by
  rw [scans, view_append, foldl_scans, ← scans]

theorem foldl_of_silent {k : Journal} (h : ∀ e ∈ k, e.isSilent = true) (v : ScanView) :
    k.foldl ScanView.note v = v := by
  induction k with
  | nil => rfl
  | cons e rest ih =>
      rw [List.forall_mem_cons] at h
      have he : v.note e = v := by
        cases e with
        | effect f =>
            cases f with
            | notify n =>
                cases n with
                | stateChanged old new => cases new <;> first | rfl | simp [Entry.isSilent] at h
                | _ => rfl
            | _ => rfl
        | exchanged | begun => rfl
        | _ => simp [Entry.isSilent] at h
      rw [List.foldl_cons, he, ih h.2]

theorem foldl_queued (qs : List Queued) (v : ScanView) :
    (qs.map Entry.queued).foldl ScanView.note v = { v with waiting := v.waiting ++ qs } := by
  induction qs generalizing v with
  | nil => simp
  | cons q rest ih => simp [ih, ScanView.note]

theorem mem_of_foldl_waiting {k : Journal} {v : ScanView} {q : Queued}
    (h : q ∈ (k.foldl ScanView.note v).waiting) : q ∈ v.waiting ∨ .queued q ∈ k := by
  induction k generalizing v with
  | nil => exact .inl h
  | cons e rest ih =>
      rw [List.foldl_cons] at h
      rcases ih h with hq | hq
      · rcases ScanView.mem_note_waiting hq with hv | rfl
        · exact .inl hv
        · exact .inr (List.mem_cons_self ..)
      · exact .inr (List.mem_cons_of_mem _ hq)

theorem queued_of_waiting {j : Journal} {q : Queued} (h : q ∈ j.view.waiting) : .queued q ∈ j :=
  (mem_of_foldl_waiting h).resolve_left (List.not_mem_nil)

/-! ## The parts of a move -/

theorem silent_ofReport (id : Option RequestId) (outcome : Outcome) :
    ∀ e ∈ ofReport id outcome, e.isSilent = true ∧ e.isPlain = true := by
  cases id <;> simp [ofReport, Entry.isSilent, Entry.isPlain]

theorem silent_ofPoll (target : RadioState) (generation after : Nat) :
    ∀ e ∈ ofPoll target generation after, e.isSilent = true ∧ e.isPlain = true := by
  unfold ofPoll
  split <;> simp [Entry.isSilent, Entry.isPlain]

theorem silent_ofStart (p : Pending) :
    ∀ e ∈ ofStart p, e.isSilent = true ∧ e.isPlain = true := by
  unfold ofStart
  split <;> simp [Entry.isSilent, Entry.isPlain, Notification.isScanResult]

theorem silent_ofReadings (p : Pending) (a : Attributes) :
    ∀ e ∈ ofReadings p a, e.isSilent = true ∧ e.isPlain = true := by
  rw [ofReadings, List.forall_mem_append]
  constructor
  · cases a.signalStrength with
    | none => simp
    | some level =>
        by_cases h : p.signalBefore = some level <;>
          simp [h, Entry.isSilent, Entry.isPlain, Notification.isScanResult]
  · split <;> simp [Entry.isSilent, Entry.isPlain, Notification.isScanResult]

/-- What an action does in one call, but for what follows it. -/
def ofCall (p : Progress) : Journal :=
  p.exchanges.map .exchanged ++ p.delays.map fun ms ↦ .effect (.armDelay ms)

theorem ofProgress_eq (first : Nat) (p : Progress) :
    ofProgress first p = ofCall p ++ (followups first p.followups).map .queued := rfl

theorem silent_ofCall (p : Progress) :
    ∀ e ∈ ofCall p, e.isSilent = true ∧ e.isPlain = true := by
  simp only [ofCall, List.forall_mem_append, List.forall_mem_map]
  exact ⟨fun _ _ ↦ ⟨rfl, rfl⟩, fun _ _ ↦ ⟨rfl, rfl⟩⟩

theorem foldl_ofProgress (first : Nat) (p : Progress) (v : ScanView) :
    (ofProgress first p).foldl ScanView.note v =
      { v with waiting := v.waiting ++ followups first p.followups } := by
  rw [ofProgress_eq, List.foldl_append, foldl_of_silent fun e he ↦ (silent_ofCall p e he).1,
    foldl_queued]

theorem foldl_ofChange (old new : RadioState) (v : ScanView) :
    (ofChange old new).foldl ScanView.note v = v.change old new := by
  unfold ofChange ScanView.change RadioState.enters
  split
  next h => simp [h]
  next h => cases new <;> simp [ScanView.note, Ne.symm h] at *

theorem plain_ofChange (old new : RadioState) : ∀ e ∈ ofChange old new, e.isPlain = true := by
  unfold ofChange
  split
  · simp
  · cases new <;> simp [Entry.isPlain, Notification.isScanResult]

theorem foldl_ofEnd (c : Controller) (p : Pending) (armed timedOut : Bool) (v : ScanView) :
    (ofEnd c p armed timedOut).foldl ScanView.note v =
      (v.change c.state (Turn.resolution p timedOut).1).note
        (.resolved p timedOut (c.resolved p timedOut)) := by
  have harmed : ∀ v : ScanView,
      (if armed then [Entry.effect .disarmTimeout] else []).foldl ScanView.note v = v := by
    cases armed <;> intro v <;> rfl
  rw [ofEnd, List.foldl_append, List.foldl_append, List.foldl_append, List.foldl_append,
    List.foldl_append, harmed, foldl_ofChange,
    foldl_of_silent fun e he ↦ (silent_ofPoll _ _ _ e he).1,
    foldl_of_silent fun e he ↦ (silent_ofStart p e he).1,
    foldl_of_silent fun e he ↦ (silent_ofReadings p _ e he).1, List.foldl_cons,
    foldl_of_silent fun e he ↦ (silent_ofReport _ _ e he).1]

theorem scans_ofEnd (c : Controller) (p : Pending) (armed timedOut : Bool) :
    (ofEnd c p armed timedOut).scans =
      RadioState.enters c.state (Turn.resolution p timedOut).1 := by
  rw [scans, view, foldl_ofEnd, ScanView.note_resolved]
  split <;> simp

theorem plain_ofEnd (c : Controller) (p : Pending) (armed timedOut : Bool) :
    ∀ e ∈ ofEnd c p armed timedOut, e.isPlain = true := by
  simp only [ofEnd, List.forall_mem_append, List.forall_mem_cons]
  refine ⟨⟨⟨⟨⟨?_, plain_ofChange _ _⟩, fun e he ↦ (silent_ofPoll _ _ _ e he).2⟩,
    fun e he ↦ (silent_ofStart p e he).2⟩, fun e he ↦ (silent_ofReadings p _ e he).2⟩, rfl,
      fun e he ↦ (silent_ofReport _ _ e he).2⟩
  cases armed <;> simp [Entry.isPlain]

end Journal

/-- An occurrence that is not in the second part is in the first. -/
theorem split_of_not_mem {α : Type} {xs ys before after : List α} {x : α}
    (h : xs ++ ys = before ++ x :: after) (hx : x ∉ ys) :
    ∃ between, xs = before ++ x :: between ∧ after = between ++ ys := by
  rcases List.append_eq_append_iff.mp h with ⟨zs, -, rfl⟩ | ⟨zs, rfl, hzs⟩
  · simp at hx
  · cases zs with
    | nil =>
        rw [List.nil_append] at hzs
        simp [← hzs] at hx
    | cons z zs =>
        cases hzs
        exact ⟨zs, rfl, rfl⟩

/-- An occurrence that is not in the first part is in the second. -/
theorem split_of_not_mem_left {α : Type} {xs ys before after : List α} {x : α}
    (h : xs ++ ys = before ++ x :: after) (hx : x ∉ xs) :
    ∃ between, before = xs ++ between ∧ ys = between ++ x :: after := by
  rcases List.append_eq_append_iff.mp h with ⟨zs, rfl, hzs⟩ | ⟨zs, rfl, hzs⟩
  · exact ⟨zs, rfl, hzs⟩
  · cases zs with
    | nil => exact ⟨[], by simp, by simpa using hzs.symm⟩
    | cons z zs =>
        cases hzs
        simp at hx

theorem eq_of_singleton_split {α : Type} {before after : List α} {x y : α}
    (h : [y] = before ++ x :: after) : before = [] ∧ x = y := by
  cases before with
  | nil =>
      cases h
      exact ⟨rfl, rfl⟩
  | cons => simp at h

end FmTuner
