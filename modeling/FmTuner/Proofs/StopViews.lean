import FmTuner.Proofs.Circuit
import FmTuner.Proofs.ScanSessions

/-!
# What a journal says about stops

`Journal.DoneSince` finds the operations that ended well in a scan that has not been left since, each
with the controller that it left, and `Journal.StoppedSince` the stops among them.
`Controller.Restarts` tells from what waits there whether the scan goes on with another search before
it ends.
-/

namespace FmTuner

/-- The call that starts a search. -/
def Call.search : Call :=
  .vendor Register.accessOpcode
    [Register.searchTuneMode, Register.writeAccess, Register.autoSearch]

namespace Operation

/-- Whether an operation decides how a scan goes on. -/
def turnsScan : Operation → Bool
  | .scanStep | .scanDone .. | .reset => true
  | _ => false

def endsScan : Operation → Bool
  | .scanDone .. => true
  | _ => false

/-- Whether an operation may change the band or the known frequency. -/
def retunes : Operation → Bool
  | .start _ | .setFrequency _ | .pollScan _ => true
  | _ => false

theorem turnsScan_of_endsScan {operation : Operation} (h : operation.endsScan = true) :
    operation.turnsScan = true := by
  cases operation <;> first | rfl | simp [endsScan] at h

end Operation

/-- What is carried out while scanning: all but the steps of a scan and a reset is a property, a
poll or another stop. -/
theorem RadioState.of_accept_scanning {operation : Operation} {destination : RadioState}
    (h : route .scanning operation = .accept destination) :
    (destination = .started ∨ destination = .idle ∨ destination = .scanning) ∧
      (operation.turnsScan = true ∧ operation ≠ .scanStep ↔ destination ≠ .scanning) ∧
        operation.scanMode = none ∧
          (operation.retunes = true → ∃ mode, operation = .pollScan mode) := by
  cases operation <;>
    simp [route, Route.whenScanning, Operation.setsProperty] at h <;> subst h <;>
      simp [Operation.turnsScan, Operation.scanMode, Operation.retunes]

theorem RadioState.turnsScan_of_defers {operation : Operation}
    (h : RadioState.scanning.defers operation = true) : operation.turnsScan = false := by
  cases operation <;>
    simp_all [defers, route, Route.whenScanning, Operation.turnsScan, Operation.setsProperty]

namespace Plan

variable {timing : Timing} {operation : Operation} {a : Attributes} {scanMode : Option ScanMode}
  {plan : Plan}

theorem Built.keeps_tuning (h : Built timing a scanMode operation plan)
    (hretunes : operation.retunes = false) {status : Status} {commands : List Command}
    {before after : Attributes} {followups : List Operation}
    (happly : plan.action.hook.apply status commands before = .ok (after, followups)) :
    after.band = before.band ∧ after.frequency = before.frequency := by
  cases h with
  | start | setFrequency | pollScan => simp [Operation.retunes] at hretunes
  | _ => cases status <;> cases happly <;> exact ⟨rfl, rfl⟩

/-- Nothing searches but the start of a scan and a step of it. -/
theorem Built.search (h : Built timing a scanMode operation plan)
    (hsearch : some Call.search ∈ Command.calls plan.action.commands) :
    operation.scanMode ≠ none ∨ operation = .scanStep := by
  have htune : ∀ f, some Call.search ∉ Command.calls (tuneCommands f) := by
    intro f
    simp [Command.calls, tuneCommands, Command.writeFrequency, Command.writeByte, Command.call,
      Call.search, Register.frequency, Register.searchTuneMode, Register.preset,
      Register.autoSearch]
  cases h with
  | scanUp | scanDown | fullScan => exact .inl (by simp [Operation.scanMode])
  | scanStep => exact .inr rfl
  | setFrequency => exact (htune _ hsearch).elim
  | scanDone =>
      cases hf : a.frequency with
      | none => simp [ofCommands, Command.calls, hf] at hsearch
      | some f =>
          refine (htune f ?_).elim
          simpa [ofCommands, hf] using hsearch
  | _ =>
      simp [ofCommands, Command.calls, startCommands, Command.writeByte, Command.pollStatus,
        Command.readFrequency, Command.readSignal, Command.call, Call.search,
        Register.searchTuneMode, Register.rdsSystem, Register.fmControl, Register.audioControl,
        Register.terminate, Register.autoSearch, Register.writeAccess, Register.readAccess]
        at hsearch

end Plan

namespace Pending.Planned

variable {p : Pending}

theorem search (h : p.Planned) (hsearch : some Call.search ∈ Command.calls p.action.commands) :
    p.action.operation.scanMode ≠ none ∨ p.action.operation = .scanStep := by
  obtain ⟨timing, a, scanMode, plan, hbuilt, -, hcalls⟩ := h
  exact hbuilt.search (hcalls ▸ hsearch)

/-- A step of a scan searches with its third and last command. -/
theorem of_scanStep (h : p.Planned) (hoperation : p.action.operation = .scanStep) :
    ∃ first second, Command.calls p.action.commands = [first, second, some Call.search] := by
  obtain ⟨timing, a, scanMode, plan, hbuilt, -, hcalls⟩ := h
  rw [hoperation] at hbuilt
  cases hbuilt with
  | scanStep hnext => exact ⟨_, _, hcalls⟩

theorem of_stopScan (h : p.Planned) (hoperation : p.action.operation = .stopScan) :
    p.action.commands ≠ [] ∧ ∃ mode, p.action.hook = .scanStopped mode := by
  obtain ⟨timing, a, scanMode, plan, hbuilt, hhook, hcalls⟩ := h
  rw [hoperation] at hbuilt
  cases hbuilt with
  | @stopScan mode hmode =>
      refine ⟨fun hnil ↦ ?_, mode, hhook⟩
      rw [hnil] at hcalls
      cases hcalls

theorem keeps_tuning (h : p.Planned) (hretunes : p.action.operation.retunes = false)
    {status : Status} {commands : List Command} {before after : Attributes}
    {followups : List Operation}
    (happly : p.action.hook.apply status commands before = .ok (after, followups)) :
    after.band = before.band ∧ after.frequency = before.frequency := by
  obtain ⟨timing, a, scanMode, plan, hbuilt, hhook, -⟩ := h
  exact hbuilt.keeps_tuning hretunes (hhook ▸ happly)

end Pending.Planned

namespace Controller

/-- Of the operations that wait, the first that decides how a scan goes on. -/
def decider (c : Controller) : Option Operation :=
  (c.queue.map fun q ↦ q.request.operation).find? Operation.turnsScan

/-- The scan goes on with a search on the next channel. -/
def Restarts (c : Controller) : Prop :=
  c.decider = some .scanStep ∧
    ∃ f, c.attributes.band.nextChannel (c.attributes.frequency.getD c.attributes.band.min) =
      .ok (some f)

variable {c d : Controller}

theorem restarts_congr (hdecider : d.decider = c.decider)
    (htuning : d.attributes.band = c.attributes.band ∧
      d.attributes.frequency = c.attributes.frequency) : d.Restarts ↔ c.Restarts := by
  rw [Restarts, Restarts, hdecider, htuning.1, htuning.2]

/-- Whatever joins the queue behind the end of a scan decides nothing. -/
theorem decider_append (h : ∃ q ∈ c.queue, q.request.operation.endsScan = true)
    {more : List Queued} (hqueue : d.queue = c.queue ++ more) : d.decider = c.decider := by
  obtain ⟨q, hq, hends⟩ := h
  obtain ⟨operation, hfound⟩ := Option.isSome_iff_exists.mp <| List.find?_isSome.mpr
    ⟨_, List.mem_map_of_mem (f := fun q : Queued ↦ q.request.operation) hq,
      Operation.turnsScan_of_endsScan hends⟩
  rw [decider, decider, hqueue, List.map_append, List.find?_append, hfound, Option.some_or]

theorem decider_of_next {q : Queued} {passed rest : List Queued}
    (hqueue : c.queue = passed ++ q :: rest)
    (hpassed : ∀ r ∈ passed, r.request.operation.turnsScan = false) :
    c.decider = if q.request.operation.turnsScan then some q.request.operation
      else ((passed ++ rest).map fun q ↦ q.request.operation).find? Operation.turnsScan := by
  have hnone : (passed.map fun q ↦ q.request.operation).find? Operation.turnsScan = none := by
    simpa using hpassed
  rw [decider, hqueue, List.map_append, List.find?_append, hnone, List.map_append,
    List.find?_append, hnone, List.map_cons, List.find?_cons]
  split <;> simp_all

/-- The end of a scan is not declined while scanning. -/
theorem Declines.endsScan {operation : Operation} {outcome : Outcome}
    (h : c.Declines operation outcome) (hstate : c.state = .scanning) :
    operation.endsScan = false := by
  cases operation with
  | scanDone =>
      cases h with
      | ignored hroute | rejected hroute => simp [hstate, route, Route.whenScanning] at hroute
      | unplanned _ hplan => simp [Plan.build] at hplan
  | _ => rfl

/-- The end of a scan is on its way: it waits or is carried out, and no poll is. -/
structure Closing (c : Controller) : Prop where
  poll : ∀ p, c.pending = some p → ∀ mode, p.action.operation ≠ .pollScan mode
  ends : (∃ q ∈ c.queue, q.request.operation.endsScan = true) ∨
    ∃ p, c.pending = some p ∧ p.action.operation.endsScan = true

namespace Closing

variable {passed rest : List Queued} {q : Queued}

/-- As long as nothing in flight decides how the scan goes on, its end is in the queue. -/
theorem in_queue (h : c.Closing)
    (hpending : ∀ p, c.pending = some p → p.action.operation.turnsScan = false) :
    ∃ q ∈ c.queue, q.request.operation.endsScan = true := by
  rcases h.ends with hqueue | ⟨p, hp, hends⟩
  · exact hqueue
  · have hturns := hpending p hp
    simp [Operation.turnsScan_of_endsScan hends] at hturns

/-- A scan does not rest in front of its end. -/
theorem pending_ne_none (h : c.Closing) (hstate : c.state = .scanning) (hrested : c.Rested) :
    c.pending ≠ none := by
  intro hnone
  obtain ⟨q, hq, hends⟩ := h.in_queue (by simp [hnone])
  have hdefers := hrested hnone q hq
  rw [Controller.defers, hstate] at hdefers
  have hturns := RadioState.turnsScan_of_defers hdefers
  simp [Operation.turnsScan_of_endsScan hends] at hturns

theorem of_taken (h : c.Closing) (hnone : c.pending = none)
    (hqueue : c.queue = passed ++ q :: rest) :
    q.request.operation.endsScan = true ∨
      ∃ r ∈ passed ++ rest, r.request.operation.endsScan = true := by
  have hends := h.in_queue (by simp [hnone])
  rw [hqueue] at hends
  obtain ⟨r, hr, hends⟩ := hends
  rw [List.mem_append, List.mem_cons] at hr
  rcases hr with hr | rfl | hr
  · exact .inr ⟨r, by simp [hr], hends⟩
  · exact .inl hends
  · exact .inr ⟨r, by simp [hr], hends⟩

theorem queued (h : c.Closing) {more : List Queued} (hpending : d.pending = c.pending)
    (hqueue : d.queue = c.queue ++ more) : d.Closing := by
  refine ⟨fun p hp ↦ h.poll p (hpending ▸ hp), ?_⟩
  rcases h.ends with ⟨q, hq, hends⟩ | ⟨p, hp, hends⟩
  · exact .inl ⟨q, by simp [hqueue, hq], hends⟩
  · exact .inr ⟨p, hpending.trans hp, hends⟩

/-- Whatever leaves the queue to begin, the end of the scan begins or still waits. -/
theorem begun (h : c.Closing) (hnone : c.pending = none) (hqueue : c.queue = passed ++ q :: rest)
    (hpoll : ∀ mode, q.request.operation ≠ .pollScan mode) {p : Pending}
    (hp : d.pending = some p) (hoperation : p.action.operation = q.request.operation)
    (hrest : d.queue = passed ++ rest) : d.Closing := by
  constructor
  · intro p' hp' mode
    cases hp.symm.trans hp'
    rw [hoperation]
    exact hpoll mode
  · rcases h.of_taken hnone hqueue with hends | hends
    · exact .inr ⟨p, hp, by rwa [hoperation]⟩
    · exact .inl (hrest ▸ hends)

theorem declined (h : c.Closing) (hnone : c.pending = none)
    (hqueue : c.queue = passed ++ q :: rest) (hother : q.request.operation.endsScan = false)
    (hpending : d.pending = none) (hrest : d.queue = passed ++ rest) : d.Closing := by
  refine ⟨by simp [hpending], .inl ?_⟩
  rcases h.of_taken hnone hqueue with hends | hends
  · simp [hother] at hends
  · exact hrest ▸ hends

end Closing

end Controller

/-! ## What a journal says about stops -/

def Entry.leavesScan : Entry → Bool
  | .effect (.notify (.stateChanged .scanning _)) => true
  | _ => false

/-- Whether an entry is the end of an operation that was done. -/
def Entry.endsWell (operation : Operation) : Entry → Bool
  | .resolved p _ _ => p.action.operation = operation ∧ p.action.status = .done
  | _ => false

/-- Entries that neither begin, send nor end anything and announce no change of state. -/
def Entry.isMinor : Entry → Bool
  | .begun .. | .exchanged _ | .resolved .. | .effect (.notify (.stateChanged ..)) => false
  | _ => true

namespace Journal

/-- An operation has ended well and left the controller `c`; in what has happened since, the scan
was not left. -/
def DoneSince (j : Journal) (operation : Operation) (c : Controller) (during : Journal) : Prop :=
  ∃ before p timedOut, j = before ++ .resolved p timedOut c :: during ∧
    p.action.operation = operation ∧ p.action.status = .done ∧
      ∀ e ∈ during, e.leavesScan = false

/-- The operation that has ended well is a stop. -/
def StoppedSince (j : Journal) (c : Controller) (during : Journal) : Prop :=
  j.DoneSince .stopScan c during

/-- A search was started, as far as the controller is concerned. -/
def Searches (j : Journal) : Prop :=
  ∃ accepted, (Call.search, accepted) ∈ j.sent

/-- What is true of an entry in the light of the stops that have gone before it. -/
structure Heeds (earlier : Journal) (e : Entry) : Prop where
  polls : ∀ p c', e = .begun p c' → ∀ mode, p.action.operation = .pollScan mode →
    ∀ c during, ¬ earlier.StoppedSince c during
  searches : ∀ accepted, e.sent? = some (Call.search, accepted) →
    ∀ c during, earlier.StoppedSince c during → c.Restarts
  leaves : ∀ new, e = .effect (.notify (.stateChanged .scanning new)) →
    (new = .started ∨ new = .idle ∨ new = .error) ∧
      (new ≠ .error → ∀ c during, earlier.StoppedSince c during → c.Restarts → during.Searches)

variable {j k during : Journal} {c : Controller} {operation : Operation}

theorem Searches.append (h : during.Searches) (k : Journal) : Searches (during ++ k) := by
  obtain ⟨accepted, hmem⟩ := h
  exact ⟨accepted, by rw [sent_append]; exact List.mem_append_left _ hmem⟩

theorem heeds_of_isMinor {e : Entry} (h : e.isMinor = true) (earlier : Journal) :
    earlier.Heeds e := by
  constructor
  · rintro p c' rfl
    simp [Entry.isMinor] at h
  · intro accepted hsent
    cases e <;> simp [Entry.isMinor, Entry.sent?] at h hsent
  · rintro new rfl
    simp [Entry.isMinor] at h

theorem DoneSince.of_append (h : (j ++ k).DoneSince operation c during)
    (hk : ∀ p timedOut c, .resolved p timedOut c ∉ k) :
    ∃ earlier, during = earlier ++ k ∧ j.DoneSince operation c earlier ∧
      ∀ e ∈ k, e.leavesScan = false := by
  obtain ⟨before, p, timedOut, hsplit, hoperation, hstatus, hduring⟩ := h
  obtain ⟨earlier, rfl, rfl⟩ := split_of_not_mem hsplit (hk p timedOut c)
  rw [List.forall_mem_append] at hduring
  exact ⟨earlier, rfl, ⟨before, p, timedOut, rfl, hoperation, hstatus, hduring.1⟩, hduring.2⟩

theorem exists_doneSince {i : Nat} (hend : j[i]?.any (Entry.endsWell operation) = true)
    (hleaves : ∀ e ∈ j.drop (i + 1), e.leavesScan = false) :
    ∃ c, j.DoneSince operation c (j.drop (i + 1)) := by
  obtain ⟨e, he, hend⟩ := (Option.any_eq_true _ _).mp hend
  cases e with
  | resolved p timedOut c =>
      obtain ⟨hoperation, hstatus⟩ : p.action.operation = operation ∧ p.action.status = .done := by
        simpa [Entry.endsWell] using hend
      obtain ⟨hi, heq⟩ := List.getElem?_eq_some_iff.mp he
      refine ⟨c, j.take i, p, timedOut, ?_, hoperation, hstatus, hleaves⟩
      rw [← heq, List.getElem_cons_drop, List.take_append_drop]
  | _ => simp [Entry.endsWell] at hend

/-- The entries that the end of a transition adds before it is on record. -/
def ofFinish (c : Controller) (p : Pending) (armed timedOut : Bool) : Journal :=
  (if armed then [.effect .disarmTimeout] else []) ++
    ofChange c.state (Turn.resolution p timedOut).1 ++
    ofPoll (Turn.resolution p timedOut).1 c.generation c.timing.pollInterval ++
    ofStart p ++ ofReadings p c.attributes

theorem ofEnd_eq (c : Controller) (p : Pending) (armed timedOut : Bool) :
    ofEnd c p armed timedOut = ofFinish c p armed timedOut ++
      .resolved p timedOut (c.resolved p timedOut) ::
        ofReport p.request (Turn.resolution p timedOut).2 := rfl

theorem minor_ofReport (id : Option RequestId) (outcome : Outcome) :
    ∀ e ∈ ofReport id outcome, e.isMinor = true := by
  cases id <;> simp [ofReport, Entry.isMinor]

theorem mem_ofFinish {p : Pending} {armed timedOut : Bool} {e : Entry}
    (h : e ∈ ofFinish c p armed timedOut) :
    e.isMinor = true ∨ (Turn.resolution p timedOut).1 ≠ c.state ∧
      e = .effect (.notify (.stateChanged c.state (Turn.resolution p timedOut).1)) := by
  simp only [ofFinish, List.mem_append] at h
  rcases h with (((h | h) | h) | h) | h
  · refine .inl ?_
    cases armed
    · simp at h
    · cases List.mem_singleton.mp h
      rfl
  · unfold ofChange at h
    split at h
    next => simp at h
    next hchange =>
      rcases List.mem_cons.mp h with rfl | h
      · exact .inr ⟨hchange, rfl⟩
      · refine .inl ?_
        split at h <;> simp at h <;> subst h <;> rfl
  · refine .inl ?_
    unfold ofPoll at h
    split at h <;> simp at h
    subst h
    rfl
  · refine .inl ?_
    unfold ofStart at h
    split at h <;> simp at h
    subst h
    rfl
  · refine .inl ?_
    rw [ofReadings, List.mem_append] at h
    rcases h with h | h
    · split at h
      · split at h <;> simp at h
        subst h
        rfl
      · simp at h
    · split at h <;> simp at h
      subst h
      rfl

theorem leaves_of_change {p : Pending} {armed timedOut : Bool}
    (hstate : c.state = .scanning) (hchange : (Turn.resolution p timedOut).1 ≠ .scanning) :
    ∃ e ∈ ofFinish c p armed timedOut, e.leavesScan = true := by
  refine ⟨.effect (.notify (.stateChanged .scanning (Turn.resolution p timedOut).1)), ?_, rfl⟩
  simp [ofFinish, ofChange, hstate, hchange]

theorem mem_ofProgress {first : Nat} {p : Progress} {e : Entry} (h : e ∈ ofProgress first p) :
    e.isMinor = true ∨ ∃ x ∈ p.exchanges, e = .exchanged x := by
  simp only [ofProgress, List.mem_append, List.mem_map] at h
  rcases h with (⟨x, hx, rfl⟩ | ⟨ms, -, rfl⟩) | ⟨q, -, rfl⟩
  · exact .inr ⟨x, hx, rfl⟩
  · exact .inl rfl
  · exact .inl rfl

theorem DoneSince.of_resolved {p : Pending} {timedOut : Bool} {d : Controller}
    (h : (j ++ .resolved p timedOut d :: k).DoneSince operation c during)
    (hk : ∀ p timedOut c, .resolved p timedOut c ∉ k) :
    (c = d ∧ during = k ∧ p.action.operation = operation ∧ p.action.status = .done) ∨
      ∃ earlier, during = earlier ++ .resolved p timedOut d :: k ∧
        j.DoneSince operation c earlier := by
  obtain ⟨before, q, late, hsplit, hoperation, hstatus, hduring⟩ := h
  rcases List.append_eq_append_iff.mp hsplit with ⟨between, rfl, heq⟩ | ⟨between, rfl, heq⟩
  · cases between with
    | nil =>
        cases heq
        exact .inl ⟨rfl, rfl, hoperation, hstatus⟩
    | cons x between =>
        cases heq
        exact (hk q late c (by simp)).elim
  · cases between with
    | nil =>
        cases heq
        exact .inl ⟨rfl, rfl, hoperation, hstatus⟩
    | cons x between =>
        cases heq
        refine .inr ⟨between, rfl, before, q, late, rfl, hoperation, hstatus, fun e he ↦ ?_⟩
        exact hduring e (List.mem_append_left _ he)

end Journal

end FmTuner
