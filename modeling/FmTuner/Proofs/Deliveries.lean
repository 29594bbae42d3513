import FmTuner.Proofs.Circuit
import FmTuner.Proofs.Polling
import FmTuner.Proofs.ScanViews

/-!
# Deliveries

A circuit that nobody asks for anything goes on by what is underway: the answers that the controller
has yet to hear, and the polls that it has scheduled and not made stale. `Circuit.Arrives` says that
it gets somewhere within a number of such deliveries, whichever of them are made.
-/

namespace FmTuner

namespace Journal

/-- The results of scans that were reported, in order. -/
def results (j : Journal) : List Notification := j.notifications.filter Notification.isScanResult

@[simp] theorem results_append (j k : Journal) : results (j ++ k) = results j ++ results k := by
  simp [results]

theorem results_of_plain {j : Journal} (h : ∀ e ∈ j, e.isPlain = true) : results j = [] := by
  rw [results, List.filter_eq_nil_iff]
  intro n hn
  obtain ⟨f, hf, hnotify⟩ := List.mem_filterMap.mp hn
  obtain ⟨e, he, heffect⟩ := List.mem_filterMap.mp hf
  cases f with
  | notify m =>
      cases hnotify
      cases e with
      | effect g =>
          cases heffect
          simpa [Entry.isPlain] using h _ he
      | _ => cases heffect
  | _ => cases hnotify

@[simp] theorem results_ofProgress (first : Nat) (p : Progress) :
    results (ofProgress first p) = [] := by
  have hqueued : ∀ qs : List Queued, results (qs.map .queued) = [] := fun qs ↦ by
    simp [results, notifications, effects, List.filterMap_map, Function.comp_def, Entry.effect?]
  rw [ofProgress_eq, results_append, hqueued,
    results_of_plain fun e he ↦ (silent_ofCall p e he).2]
  rfl

@[simp] theorem results_ofEnd (c : Controller) (p : Pending) (armed timedOut : Bool) :
    results (ofEnd c p armed timedOut) = [] :=
  results_of_plain (plain_ofEnd c p armed timedOut)

@[simp] theorem results_begun (p : Pending) (c : Controller) (ns : List Notification) :
    results (.begun p c :: ns.map fun n ↦ .effect (.notify n)) =
      ns.filter Notification.isScanResult := by
  have hbegun : ∀ k, effects (.begun p c :: k) = effects k := fun _ ↦ rfl
  have hnotices : effects (ns.map fun n ↦ .effect (.notify n)) = ns.map .notify := by
    simp [effects, List.filterMap_map, Function.comp_def, Entry.effect?]
  simp [results, notifications, hbegun, hnotices, List.filterMap_map]

end Journal

namespace Circuit

/-- The events that happen of themselves. A poll is delivered while the controller would follow
it. -/
def Live (c : Circuit) (history : Journal) : Event → Prop
  | .callback answer => answer ∈ c.inFlight
  | .pollDue generation =>
      generation ∈ history.polls ∧ ¬ c.receiver.radio.Ignores (.pollDue generation)
  | _ => False

/-- Within a number of deliveries the goal is met. Until then there is always something to deliver,
and no delivery faults. -/
def Arrives (goal : Journal → Circuit → Prop) : Nat → Journal → Circuit → Prop
  | 0, history, c => goal history c
  | n + 1, history, c =>
      goal history c ∨
        (∃ event, c.Live history event) ∧
          ∀ event, c.Live history event →
            ∃ d journal, c.step event = .ok (d, journal) ∧ Arrives goal n (history ++ journal) d

variable {goal further : Journal → Circuit → Prop} {c d : Circuit} {history : Journal} {m n : Nat}

theorem Live.offers {event : Event} (h : c.Live history event) : c.Offers event := by
  cases event <;> first | exact h | trivial

namespace Arrives

theorem now (h : goal history c) (n : Nat) : Arrives goal n history c := by
  cases n with
  | zero => exact h
  | succ n => exact .inl h

theorem le (h : Arrives goal m history c) (hle : m ≤ n) : Arrives goal n history c := by
  induction m generalizing n history c with
  | zero => exact now h n
  | succ m ih =>
      obtain ⟨k, rfl⟩ := Nat.exists_eq_add_of_lt (Nat.lt_of_succ_le hle)
      rcases h with hgoal | ⟨hlive, hstep⟩
      · exact .inl hgoal
      · refine .inr ⟨hlive, fun event hevent ↦ ?_⟩
        obtain ⟨d, journal, heq, hd⟩ := hstep event hevent
        exact ⟨d, journal, heq, ih hd (Nat.le_add_right m k)⟩

/-- What arrives at a place from which it goes further arrives there. -/
theorem trans (h : Arrives goal m history c)
    (hfurther : ∀ history c, goal history c → Arrives further n history c) :
    Arrives further (m + n) history c := by
  induction m generalizing history c with
  | zero => exact (hfurther history c h).le (Nat.le_add_left n 0)
  | succ m ih =>
      rcases h with hgoal | ⟨hlive, hstep⟩
      · exact (hfurther history c hgoal).le (Nat.le_add_left n (m + 1))
      · rw [Nat.add_right_comm]
        refine .inr ⟨hlive, fun event hevent ↦ ?_⟩
        obtain ⟨d, journal, heq, hd⟩ := hstep event hevent
        exact ⟨d, journal, heq, ih hd⟩

theorem mono (h : Arrives goal n history c)
    (hfurther : ∀ history c, goal history c → further history c) :
    Arrives further n history c :=
  h.trans (n := 0) hfurther

/-- When only one event is underway, it is the one to deliver. -/
theorem of_only {event : Event} {journal : Journal} (hlive : c.Live history event)
    (honly : ∀ e, c.Live history e → e = event) (hstep : c.step event = .ok (d, journal))
    (h : Arrives goal n (history ++ journal) d) : Arrives goal (n + 1) history c := by
  refine .inr ⟨⟨event, hlive⟩, fun e he ↦ ?_⟩
  cases honly e he
  exact ⟨d, journal, hstep, h⟩

end Arrives

/-- Whatever shows `P` arrives at something that shows `Q`. -/
def Leads (n : Nat) (P Q : Journal → Circuit → Prop) : Prop :=
  ∀ history c, P history c → Arrives Q n history c

theorem Leads.refl (P : Journal → Circuit → Prop) : Leads 0 P P := fun _ _ h ↦ h

theorem Leads.trans {P Q R : Journal → Circuit → Prop} (h : Leads m P Q) (hQ : Leads n Q R) :
    Leads (m + n) P R := fun history c hP ↦ (h history c hP).trans hQ

theorem Leads.le {P Q : Journal → Circuit → Prop} (h : Leads m P Q) (hle : m ≤ n) : Leads n P Q :=
  fun history c hP ↦ (h history c hP).le hle

end Circuit

end FmTuner
