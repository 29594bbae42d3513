import FmTuner.Controller.Route
import FmTuner.Plan
import FmTuner.Proofs.Completions

/-!
# What plans are made of

`Plan.Built` lists the plans, operation by operation, with what an operation without one lacks.
-/

namespace FmTuner

/-- Only the answer to a read can be without success and without error. -/
theorem Command.verdict_of_complete {command completed : Command} {callback : Callback}
    {band : Band} {verdict : Verdict} (h : command.complete callback band = .ok (completed, verdict)) :
    completed.isRead = command.isRead ∧
      (command.isRead = false → verdict = .success ∨ verdict = .error) := by
  cases completes_of_complete h with
  | refused => exact ⟨rfl, fun _ ↦ .inr rfl⟩
  | confirmed => exact ⟨rfl, fun _ ↦ .inl rfl⟩
  | decoded => exact ⟨rfl, by simp [isRead]⟩

namespace Plan

open Command Register

variable {timing : Timing} {operation : Operation} {a : Attributes} {scanMode : Option ScanMode}
  {plan : Plan}

inductive Built (timing : Timing) (a : Attributes) (scanMode : Option ScanMode) :
    Operation → Plan → Prop where
  | start (b : Band) :
      Built timing a scanMode (.start b)
        (ofCommands (.start b) (startCommands timing b) (.started b))
  | reset :
      Built timing a scanMode .reset
        (ofCommands .reset [writeByte rdsSystem rdsOff, .power false] .none)
  | pause :
      Built timing a scanMode .pause
        (ofCommands .pause [writeByte audioControl (audioControlValue true)] .none)
  | resume :
      Built timing a scanMode .resume
        (ofCommands .resume [writeByte audioControl (audioControlValue false)] .none)
  | setFrequency {f : Freq} (hvalid : a.band.isValid f = true) :
      Built timing a scanMode (.setFrequency f)
        (ofCommands (.setFrequency f) (tuneCommands f) (.frequencySet f))
  | setThreshold (value : Nat) :
      Built timing a scanMode (.setThreshold value)
        (ofCommands (.setThreshold value) [] (.thresholdSet value))
  | setForceMono (on : Bool) :
      Built timing a scanMode (.setForceMono on)
        (ofCommands (.setForceMono on) [writeByte fmControl (fmControlValue a.band on)]
          (.forceMonoSet on))
  | setAutoAfSwitch (on : Bool) :
      Built timing a scanMode (.setAutoAfSwitch on)
        (ofCommands (.setAutoAfSwitch on) [] (.autoAfSwitchSet on))
  | setAutoTaSwitch (on : Bool) :
      Built timing a scanMode (.setAutoTaSwitch on)
        (ofCommands (.setAutoTaSwitch on) [] (.autoTaSwitchSet on))
  | scanUp :
      Built timing a scanMode .scanUp (ofCommands .scanUp (searchCommands true a.threshold) .none)
  | scanDown :
      Built timing a scanMode .scanDown
        (ofCommands .scanDown (searchCommands false a.threshold) .none)
  | fullScan :
      Built timing a scanMode .fullScan
        (ofCommands .fullScan (writeFrequency a.band.min :: searchCommands true a.threshold)
          .fullScanStarted)
  | scanStep {f : Freq} (hnext : a.band.nextChannel (a.frequency.getD a.band.min) = .ok (some f)) :
      Built timing a scanMode .scanStep
        (ofCommands .scanStep (writeFrequency f :: searchCommands true a.threshold) .none)
  | pollScan (mode : ScanMode) :
      Built timing a scanMode (.pollScan mode)
        (ofCommands (.pollScan mode) [pollStatus, readFrequency, readSignal]
          (.scanPolled mode timing.maxStations))
  | stopScan {mode : ScanMode} (hmode : scanMode = some mode) :
      Built timing a scanMode .stopScan
        (ofCommands .stopScan [writeByte searchTuneMode terminate] (.scanStopped mode))
  | scanDone (mode : ScanMode) (aborted : Bool) :
      Built timing a scanMode (.scanDone mode aborted)
        { ofCommands (.scanDone mode aborted) ((a.frequency.map tuneCommands).getD []) .none with
          notices := [scanNotice mode aborted a] }

theorem built_of_build (h : build timing operation a scanMode = .ok (some plan)) :
    Built timing a scanMode operation plan := by
  cases operation
  case setFrequency f =>
    by_cases hvalid : a.band.isValid f = true
    · simp only [build, hvalid, if_true, Except.ok.injEq, Option.some.injEq] at h
      exact h ▸ .setFrequency hvalid
    · simp [build, hvalid] at h
  case scanStep =>
    cases hnext : a.band.nextChannel (a.frequency.getD a.band.min) with
    | error fault => simp [build, hnext, bind, Except.bind] at h
    | ok next =>
        cases next with
        | none => simp [build, hnext, bind, Except.bind] at h
        | some f =>
            simp only [build, hnext, bind, Except.bind, Except.ok.injEq, Option.some.injEq] at h
            exact h ▸ .scanStep hnext
  case stopScan =>
    cases hmode : scanMode with
    | none => simp [build, hmode] at h
    | some mode =>
        simp only [build, hmode, Option.bind, Except.ok.injEq, Option.some.injEq] at h
        exact h ▸ .stopScan rfl
  all_goals
    cases h
    constructor

theorem Built.action (h : Built timing a scanMode operation plan) :
    plan.action.operation = operation ∧ plan.action.status = .idle ∧ plan.action.index = 0 := by
  cases h <;> exact ⟨rfl, rfl, rfl⟩

/-- Nothing is notified at the beginning of a transition but the result of a scan. -/
theorem Built.notices (h : Built timing a scanMode operation plan) :
    (∃ mode aborted, operation = .scanDone mode aborted ∧
        plan.notices = [scanNotice mode aborted a]) ∨
      (∀ mode aborted, operation ≠ .scanDone mode aborted) ∧ plan.notices = [] := by
  cases h with
  | scanDone mode aborted => exact .inl ⟨mode, aborted, rfl, rfl⟩
  | _ => exact .inr ⟨by simp, rfl⟩

/-- What a poll or a stop reports at its end, it reports for the scan it was made for. -/
theorem Built.hook (h : Built timing a scanMode operation plan) :
    (∀ mode capacity, plan.action.hook = .scanPolled mode capacity → operation = .pollScan mode) ∧
      ∀ mode, plan.action.hook = .scanStopped mode →
        operation = .stopScan ∧ scanMode = some mode := by
  cases h with
  | pollScan mode =>
      refine ⟨fun m capacity hhook ↦ ?_, fun m hhook ↦ by simp [ofCommands] at hhook⟩
      cases hhook
      rfl
  | stopScan hmode =>
      refine ⟨fun m capacity hhook ↦ by simp [ofCommands] at hhook, fun m hhook ↦ ?_⟩
      cases hhook
      exact ⟨rfl, hmode⟩
  | _ => simp [ofCommands]

/-- Only operations that would have left the radio in its state can be without a plan. -/
theorem stays_of_unplanned (h : build timing operation a scanMode = .ok none)
    {state destination : RadioState} (hroute : route state operation = .accept destination) :
    destination = state := by
  have hstays : ∀ operation, (∃ f, operation = .setFrequency f) ∨ operation = .stopScan ∨
      operation = .scanStep → route state operation = .accept destination →
        destination = state := by
    rintro operation (⟨f, rfl⟩ | rfl | rfl) hroute <;> cases state <;>
      simp [route, Route.whenIdle, Route.whenOn, Route.whenScanning, Operation.setsProperty]
        at hroute <;> exact hroute.symm
  cases operation
  case setFrequency f => exact hstays _ (.inl ⟨f, rfl⟩) hroute
  case stopScan => exact hstays _ (.inr (.inl rfl)) hroute
  case scanStep => exact hstays _ (.inr (.inr rfl)) hroute
  all_goals simp [build] at h

/-- An action without commands asks for nothing to follow. -/
theorem Built.followups_of_empty (h : Built timing a scanMode operation plan)
    (hcommands : plan.action.commands = []) {b : Attributes} {followups : List Operation}
    (hhook : plan.action.hook.apply .done [] a = .ok (b, followups)) : followups = [] := by
  cases h with
  | setThreshold | setAutoAfSwitch | setAutoTaSwitch | scanDone => cases hhook; rfl
  | _ => simp [ofCommands, startCommands, tuneCommands, searchCommands] at hcommands

/-- Nothing but a poll reads the chip. -/
theorem Built.reads (h : Built timing a scanMode operation plan)
    (hpoll : ∀ mode, operation ≠ .pollScan mode) :
    ∀ command ∈ plan.action.commands, command.isRead = false := by
  have hwrites : ∀ f, ∀ command ∈ tuneCommands f, command.isRead = false := by
    simp [tuneCommands, writeFrequency, writeByte, isRead]
  cases h with
  | pollScan mode => exact (hpoll mode rfl).elim
  | scanDone =>
      cases a.frequency with
      | none => exact List.forall_mem_nil _
      | some f => exact hwrites f
  | _ =>
      simp [ofCommands, startCommands, tuneCommands, searchCommands, writeFrequency, writeByte,
        isRead]

end Plan

end FmTuner
