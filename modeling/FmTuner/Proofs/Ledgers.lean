import FmTuner.Proofs.Deliveries
import FmTuner.Proofs.Timeouts

/-!
# Ledgers

What a journal shows to those who wait for a scan or a request: the results of scans, how the
transitions have ended, and what the clients were told.
-/

namespace FmTuner

structure Ledger where
  /-- The results of scans reported so far. -/
  results : List Notification := []
  /-- The transitions that have ended, in order, each with its last status. -/
  endings : List (Operation × Status) := []
  reports : List (RequestId × Outcome) := []

namespace Ledger

instance : Append Ledger where
  append l m := ⟨l.results ++ m.results, l.endings ++ m.endings, l.reports ++ m.reports⟩

variable (l m n : Ledger)

@[simp] theorem append_results : (l ++ m).results = l.results ++ m.results := rfl

@[simp] theorem append_endings : (l ++ m).endings = l.endings ++ m.endings := rfl

@[simp] theorem append_reports : (l ++ m).reports = l.reports ++ m.reports := rfl

@[simp] theorem mk_append_mk (results results' : List Notification)
    (endings endings' : List (Operation × Status)) (reports reports' : List (RequestId × Outcome)) :
    (⟨results, endings, reports⟩ : Ledger) ++ (⟨results', endings', reports'⟩ : Ledger) =
      ⟨results ++ results', endings ++ endings', reports ++ reports'⟩ := rfl

@[simp] theorem append_empty : l ++ ({} : Ledger) = l := by
  obtain ⟨results, endings, reports⟩ := l
  change Ledger.mk (results ++ []) (endings ++ []) (reports ++ []) = _
  simp only [List.append_nil]

theorem append_assoc : l ++ m ++ n = l ++ (m ++ n) := by
  change Ledger.mk (_ ++ _ ++ _) (_ ++ _ ++ _) (_ ++ _ ++ _) = Ledger.mk _ _ _
  simp only [List.append_assoc]
  rfl

end Ledger

/-- The outcome that is reported of a transition which ends in time. -/
def Status.outcome : Status → Outcome
  | .done => .done
  | .cancel => .cancelled
  | .fail => .failed
  | .idle | .running | .error => .error

def Entry.ending? : Entry → Option (Operation × Status)
  | .resolved p _ _ => some (p.action.operation, p.action.status)
  | _ => none

namespace Journal

def endings (j : Journal) : List (Operation × Status) := j.filterMap Entry.ending?

def ledger (j : Journal) : Ledger := ⟨j.results, j.endings, j.reports⟩

/-- The delays that have begun. -/
def delays (j : Journal) : List Nat :=
  j.effects.filterMap fun | .armDelay ms => some ms | _ => none

variable {j k : Journal}

@[simp] theorem endings_append (j k : Journal) : endings (j ++ k) = endings j ++ endings k := by
  simp [endings]

@[simp] theorem ledger_append (j k : Journal) : ledger (j ++ k) = ledger j ++ ledger k := by
  rw [ledger, results_append, endings_append, reports_append]
  rfl

@[simp] theorem delays_append (j k : Journal) : delays (j ++ k) = delays j ++ delays k := by
  simp [delays]

theorem elapses_eq (j : Journal) : j.elapses = j.delays.map fun _ ↦ .delayElapsed := by
  rw [elapses, delays, List.map_filterMap]
  refine List.filterMap_congr fun e _ ↦ ?_
  cases e <;> rfl

theorem delays_eq_nil (h : j.elapses = []) : j.delays = [] := by
  rwa [elapses_eq, List.map_eq_nil_iff] at h

theorem delays_ofProgress (first : Nat) (p : Progress) : delays (ofProgress first p) = p.delays := by
  have hexchanged : delays (p.exchanges.map .exchanged) = [] := by
    simp [delays, effects, List.filterMap_map, Function.comp_def, Entry.effect?]
  have hqueued := delays_eq_nil (calm_queued (followups first p.followups)).elapses
  rw [ofProgress, delays_append, delays_append, hexchanged, hqueued]
  simp [delays, effects, List.filterMap_map, Function.comp_def, Entry.effect?]

theorem endings_of_untimed (h : ∀ e ∈ j, e.isTimed = false) : endings j = [] := by
  rw [endings, List.filterMap_eq_nil_iff]
  intro e he
  have htimed := h e he
  cases e <;> first | rfl | simp [Entry.isTimed] at htimed

theorem endings_ofEnd (c : Controller) (p : Pending) (armed timedOut : Bool) :
    endings (ofEnd c p armed timedOut) = [(p.action.operation, p.action.status)] := by
  have harmed : endings (if armed then [.effect .disarmTimeout] else []) = [] := by
    cases armed <;> rfl
  have hresolved : ∀ j, endings (.resolved p timedOut (c.resolved p timedOut) :: j) =
      (p.action.operation, p.action.status) :: endings j := fun _ ↦ rfl
  have hentered := endings_of_untimed (untimed_enter c.state (Turn.resolution p timedOut).1
    c.generation c.timing.pollInterval)
  rw [endings_append] at hentered
  rw [ofEnd, endings_append, hresolved, endings_of_untimed (untimed_ofReport _ _)]
  simp [harmed, List.append_eq_nil_iff.mp hentered, endings_of_untimed (untimed_ofStart p),
    endings_of_untimed (untimed_ofReadings p c.attributes)]

theorem ledger_ofProgress (first : Nat) (p : Progress) : ledger (ofProgress first p) = {} := by
  rw [ledger, results_ofProgress, reports_ofProgress, endings_of_untimed (untimed_ofProgress _ _)]

theorem ledger_ofEnd (c : Controller) (p : Pending) (armed : Bool) :
    ledger (ofEnd c p armed false) =
      { endings := [(p.action.operation, p.action.status)]
        reports := p.request.toList.map (·, p.action.status.outcome) } := by
  have houtcome : (Turn.resolution p false).2 = p.action.status.outcome := by
    cases hstatus : p.action.status <;> simp [Turn.resolution, Status.outcome, hstatus]
  rw [ledger, results_ofEnd, endings_ofEnd, reports_ofEnd, houtcome]

theorem ledger_begun (p : Pending) (c : Controller) (ns : List Notification) :
    ledger (.begun p c :: ns.map fun n ↦ .effect (.notify n)) =
      { results := ns.filter Notification.isScanResult } := by
  have hendings : endings (.begun p c :: ns.map fun n ↦ .effect (.notify n)) = [] := by
    simp [endings, Entry.ending?]
  have hreports : reports (.begun p c :: ns.map fun n ↦ .effect (.notify n)) = [] :=
    reports_eq_nil (by simp)
  rw [ledger, results_begun, hendings, hreports]

end Journal

end FmTuner
