import FmTuner.Action
import FmTuner.Proofs.Completions

/-!
# The life of an action

Everything that one call to an action can do, with the progress it makes. `Action.Begins` lists
the outcomes of the first call, `Action.Advances` those of a callback; both hold of whatever the
calls return, so that no later argument has to open them.
-/

namespace FmTuner

/-! ## Hooks -/

theorem Hook.apply_error (hook : Hook) (commands : List Command) (a : Attributes) :
    hook.apply .error commands a = .ok (a, []) := by
  cases hook <;> rfl

theorem Hook.apply_cancel (hook : Hook) (commands : List Command) (a : Attributes) :
    hook.apply .cancel commands a = .ok (a, []) := by
  cases hook <;> rfl

/-- The operations that a hook asks for when its action ends. -/
inductive Hook.Follows (hook : Hook) : Status → Operation → Prop where
  | step {mode : ScanMode} {capacity : Nat} (hhook : hook = .scanPolled mode capacity) :
      Follows hook .done .scanStep
  | polled {mode : ScanMode} {capacity : Nat} {status : Status}
      (hhook : hook = .scanPolled mode capacity) (hstatus : status = .done ∨ status = .fail) :
      Follows hook status (.scanDone mode false)
  | stopped {mode : ScanMode} (hhook : hook = .scanStopped mode) :
      Follows hook .done (.scanDone mode true)

theorem Hook.followups_of_apply {hook : Hook} {status : Status} {commands : List Command}
    {a b : Attributes} {followups : List Operation}
    (h : hook.apply status commands a = .ok (b, followups)) :
    followups = [] ∨ ∃ operation, followups = [operation] ∧ hook.Follows status operation := by
  have hnone : ∀ {a : Attributes}, (.ok (a, []) : Except Fault (Attributes × List Operation)) =
      .ok (b, followups) → followups = [] := fun heq ↦ by cases heq; rfl
  cases status with
  | done =>
      cases hook with
      | scanPolled mode capacity =>
          simp only [apply, bind, Except.bind] at h
          split at h
          next => simp at h
          next result hpoll =>
            obtain ⟨c, operation⟩ := result
            cases h
            refine .inr ⟨operation, rfl, ?_⟩
            simp only [Readings.poll, bind, Except.bind] at hpoll
            split at hpoll
            next =>
              split at hpoll
              next => simp at hpoll
              next =>
                split at hpoll <;> cases hpoll
                · exact .polled rfl (.inl rfl)
                · exact .step rfl
            next =>
              cases hpoll
              exact .polled rfl (.inl rfl)
      | scanStopped mode =>
          cases h
          exact .inr ⟨_, rfl, .stopped rfl⟩
      | _ => exact .inl (hnone h)
  | fail =>
      cases hook with
      | scanPolled mode capacity =>
          cases h
          exact .inr ⟨_, rfl, .polled rfl (.inr rfl)⟩
      | _ => exact .inl (hnone h)
  | cancel => exact .inl (hnone (Hook.apply_cancel hook commands a ▸ h))
  | error => exact .inl (hnone (Hook.apply_error hook commands a ▸ h))
  | _ => cases hook <;> exact .inl (hnone h)

/-! ## Commands -/

/-- A command that is completed is still sent by the same call. -/
theorem Command.call_of_complete {command completed : Command} {callback : Callback} {band : Band}
    {verdict : Verdict} (h : command.complete callback band = .ok (completed, verdict)) :
    completed.call = command.call := by
  cases completes_of_complete h with
  | refused | confirmed | decoded => rfl

/-- The calls that a list of commands makes, one after another; a delay makes none. -/
def Command.calls (commands : List Command) : List (Option Call) := commands.map call

theorem Command.calls_set {commands : List Command} {index : Nat} {command completed : Command}
    (hcommand : commands[index]? = some command) (hcall : completed.call = command.call) :
    calls (commands.set index completed) = calls commands := by
  obtain ⟨hindex, rfl⟩ := List.getElem?_eq_some_iff.mp hcommand
  rw [calls, List.map_set, hcall, ← List.getElem_map call, List.set_getElem_self, calls]
  simpa using hindex

theorem Exchange.call_of_sent {index : Nat} {command : Command} {accepted : Bool}
    {x : Call × Bool} (h : (issued index command accepted).sent = some x) :
    command.call = some x.1 := by
  obtain ⟨call, hcall, rfl⟩ := Option.map_eq_some_iff.mp h
  exact hcall

theorem Exchange.sent_issued (index : Nat) (command : Command) (accepted : Bool) :
    [issued index command accepted].filterMap sent = (command.call.map (·, accepted)).toList := by
  cases hcall : command.call <;> simp [sent, hcall]

theorem Exchange.delay_issued (index : Nat) (command : Command) (accepted : Bool) :
    [issued index command accepted].filterMap delay = command.delayMs.toList := by
  cases hdelay : command.delayMs <;> simp [delay, hdelay]

/-! ## Moving the status -/

namespace Progress

variable {p q : Progress} {status : Status}

theorem moveTo_terminal (h : p.action.status.isTerminal = false) (hs : status.isTerminal = true)
    (hq : p.moveTo status = .ok q) :
    ∃ b followups,
      p.action.hook.apply status p.action.commands p.attributes = .ok (b, followups) ∧
        q = { p with
          action := { p.action with status := status }
          attributes := b
          followups := p.followups ++ followups } := by
  have hne : status ≠ p.action.status := by
    rintro rfl
    simp [h] at hs
  rw [moveTo, if_neg (by simp [h, hne])] at hq
  simp only [hs, if_true] at hq
  split at hq
  next b followups happly => exact ⟨b, followups, happly, (Except.ok.inj hq).symm⟩
  next => simp at hq

theorem moveTo_of_hook (h : p.action.status.isTerminal = false) (hs : status.isTerminal = true)
    {b : Attributes} {followups : List Operation}
    (hhook : p.action.hook.apply status p.action.commands p.attributes = .ok (b, followups)) :
    p.moveTo status = .ok { p with
      action := { p.action with status := status }
      attributes := b
      followups := p.followups ++ followups } := by
  have hne : status ≠ p.action.status := by
    rintro rfl
    simp [h] at hs
  rw [moveTo, if_neg (by simp [h, hne])]
  simp only [hs, if_true, hhook]

theorem moveTo_error (h : p.action.status.isTerminal = false) :
    p.moveTo .error = .ok { p with action := { p.action with status := .error } } := by
  have hne : Status.error ≠ p.action.status := by
    intro he
    simp [← he, Status.isTerminal] at h
  rw [moveTo, if_neg (by simp [h, hne])]
  simp [Status.isTerminal, Hook.apply_error]

/-- Sending a command leaves a running action running, or ends it in an error when the command is
not taken. -/
theorem issue_eq (accepts : Call → Bool) {command : Command}
    (hs : p.action.status = .running) (hc : p.action.commands[p.action.index]? = some command) :
    p.issue accepts = .ok
      { p with
        action := { p.action with
          status := if command.accepted accepts then .running else .error }
        exchanges := p.exchanges ++
          [.issued p.action.index command (command.accepted accepts)] } := by
  have hentry : entryAt p.action.commands p.action.index = .ok command := by
    simp [entryAt, hc]
  rw [issue, hentry]
  obtain ⟨⟨operation, commands, hook, index, st⟩, a, exchanges, followups⟩ := p
  cases hs
  cases haccepted : command.accepted accepts with
  | true => simp [moveTo, haccepted]
  | false => simp [moveTo, haccepted, Status.isTerminal, Hook.apply_error]

end Progress

/-! ## The first call -/

namespace Action

variable {accepts : Call → Bool} {action : Action} {a : Attributes} {p : Progress}

/-- What the first call to an action comes to. -/
inductive Begins (accepts : Call → Bool) (action : Action) (a : Attributes) : Progress → Prop where
  /-- There is nothing to send. -/
  | empty {b : Attributes} {followups : List Operation} (hcommands : action.commands = [])
      (hhook : action.hook.apply .done [] a = .ok (b, followups)) :
      Begins accepts action a
        { action := { action with status := .done }, attributes := b, followups }
  | refused {first : Command} {rest : List Command} (hcommands : action.commands = first :: rest)
      (haccepted : first.accepted accepts = false) :
      Begins accepts action a
        { action := { action with index := 0, status := .error }
          attributes := a
          exchanges := [.issued 0 first false] }
  | issued {first : Command} {rest : List Command} (hcommands : action.commands = first :: rest)
      (haccepted : first.accepted accepts = true) :
      Begins accepts action a
        { action := { action with index := 0, status := .running }
          attributes := a
          exchanges := [.issued 0 first true] }

theorem begins_of_execute (hs : action.status = .idle) (h : action.execute accepts a = .ok p) :
    Begins accepts action a p := by
  rw [execute, if_neg (by simp [hs])] at h
  split at h
  next hcommands =>
    obtain ⟨b, followups, hhook, rfl⟩ :=
      Progress.moveTo_terminal (by simp [hs, Status.isTerminal]) rfl h
    rw [hcommands] at hhook
    exact .empty hcommands hhook
  next hcommands =>
    obtain ⟨first, rest, hcons⟩ := List.exists_cons_of_ne_nil hcommands
    have hentry : action.commands[0]? = some first := by simp [hcons]
    rw [Progress.issue_eq accepts rfl hentry] at h
    cases Except.ok.inj h
    cases haccepted : first.accepted accepts with
    | true => simpa using Begins.issued hcons haccepted
    | false => simpa using Begins.refused hcons haccepted

theorem Begins.execute_eq (h : Begins accepts action a p) (hs : action.status = .idle) :
    action.execute accepts a = .ok p := by
  rw [execute, if_neg (by simp [hs])]
  cases h with
  | empty hcommands hhook =>
      rw [if_pos hcommands]
      rw [← hcommands] at hhook
      exact Progress.moveTo_of_hook (by simp [hs, Status.isTerminal]) rfl hhook
  | @refused first rest hcommands haccepted | @issued first rest hcommands haccepted =>
      have hentry : action.commands[0]? = some first := by simp [hcommands]
      rw [if_neg (by simp [hcommands]), Progress.issue_eq accepts rfl hentry, haccepted]
      rfl

theorem Begins.same (h : Begins accepts action a p) :
    p.action.operation = action.operation ∧ p.action.hook = action.hook := by
  cases h <;> exact ⟨rfl, rfl⟩

theorem Begins.calls (h : Begins accepts action a p) :
    Command.calls p.action.commands = Command.calls action.commands := by
  cases h <;> rfl

/-- An action sends nothing but its commands. -/
theorem Begins.sent (h : Begins accepts action a p) :
    ∀ x ∈ p.sent, some x.1 ∈ Command.calls action.commands := by
  intro x hx
  obtain ⟨y, hy, hsent⟩ := List.mem_filterMap.mp hx
  cases h with
  | empty => simp at hy
  | refused hcommands | issued hcommands =>
      cases List.mem_singleton.mp hy
      rw [hcommands, ← Exchange.call_of_sent hsent]
      exact List.mem_cons_self ..

/-! ## A callback -/

/-- What a callback does to a running action. -/
inductive Advances (accepts : Call → Bool) (action : Action) (callback : Callback)
    (a : Attributes) : Progress → Prop where
  /-- The waiting command did not succeed. -/
  | stopped {command completed : Command} {verdict : Verdict} {b : Attributes}
      {followups : List Operation} (hcommand : action.commands[action.index]? = some command)
      (hcomplete : command.complete callback a.band = .ok (completed, verdict))
      (hverdict : verdict ≠ .success)
      (hhook : action.hook.apply verdict.status
        (action.commands.set action.index completed) a = .ok (b, followups)) :
      Advances accepts action callback a
        { action := { action with
            commands := action.commands.set action.index completed
            status := verdict.status }
          attributes := b
          exchanges := [.answered action.index completed callback verdict]
          followups }
  /-- The waiting command succeeded and was the last. -/
  | finished {command completed : Command} {b : Attributes} {followups : List Operation}
      (hcommand : action.commands[action.index]? = some command)
      (hcomplete : command.complete callback a.band = .ok (completed, .success))
      (hlast : action.commands.length = action.index + 1)
      (hhook : action.hook.apply .done
        (action.commands.set action.index completed) a = .ok (b, followups)) :
      Advances accepts action callback a
        { action := { action with
            commands := action.commands.set action.index completed
            status := .done }
          attributes := b
          exchanges := [.answered action.index completed callback .success]
          followups }
  /-- The waiting command succeeded and the next was not taken. -/
  | refused {command completed next : Command}
      (hcommand : action.commands[action.index]? = some command)
      (hcomplete : command.complete callback a.band = .ok (completed, .success))
      (hnext : action.commands[action.index + 1]? = some next)
      (haccepted : next.accepted accepts = false) :
      Advances accepts action callback a
        { action := { action with
            commands := action.commands.set action.index completed
            index := action.index + 1
            status := .error }
          attributes := a
          exchanges := [.answered action.index completed callback .success,
            .issued (action.index + 1) next false] }
  /-- The waiting command succeeded and the next was sent. -/
  | issued {command completed next : Command}
      (hcommand : action.commands[action.index]? = some command)
      (hcomplete : command.complete callback a.band = .ok (completed, .success))
      (hnext : action.commands[action.index + 1]? = some next)
      (haccepted : next.accepted accepts = true) :
      Advances accepts action callback a
        { action := { action with
            commands := action.commands.set action.index completed
            index := action.index + 1 }
          attributes := a
          exchanges := [.answered action.index completed callback .success,
            .issued (action.index + 1) next true] }

theorem Advances.same {callback : Callback} (h : Advances accepts action callback a p) :
    p.action.operation = action.operation ∧ p.action.hook = action.hook := by
  cases h <;> exact ⟨rfl, rfl⟩

theorem Advances.calls {callback : Callback} (h : Advances accepts action callback a p) :
    Command.calls p.action.commands = Command.calls action.commands := by
  cases h with
  | stopped hcommand hcomplete | finished hcommand hcomplete | refused hcommand hcomplete
  | issued hcommand hcomplete =>
      exact Command.calls_set hcommand (Command.call_of_complete hcomplete)

theorem Advances.sent {callback : Callback} (h : Advances accepts action callback a p) :
    ∀ x ∈ p.sent, some x.1 ∈ Command.calls action.commands := by
  intro x hx
  obtain ⟨y, hy, hsent⟩ := List.mem_filterMap.mp hx
  cases h with
  | stopped | finished =>
      cases List.mem_singleton.mp hy
      cases hsent
  | refused _ _ hnext | issued _ _ hnext =>
      simp only [List.mem_cons, List.not_mem_nil, or_false] at hy
      rcases hy with rfl | rfl
      · cases hsent
      · rw [← Exchange.call_of_sent hsent]
        exact List.mem_map_of_mem (List.mem_of_getElem? hnext)

/-- A verdict ends no action well. -/
theorem verdict_status_ne_done (verdict : Verdict) : verdict.status ≠ .done := by
  cases verdict <;> simp [Verdict.status]

theorem verdict_status_isTerminal {verdict : Verdict} (h : verdict ≠ .success) :
    verdict.status.isTerminal = true := by
  cases verdict <;> first | contradiction | rfl

theorem advances_of_hear {callback : Callback} (hs : action.status = .running)
    (h : action.hear accepts callback a = .ok p) : Advances accepts action callback a p := by
  rw [hear, if_neg (by simp [hs])] at h
  cases hcommand : action.commands[action.index]? with
  | none => simp [entryAt, hcommand, bind, Except.bind] at h
  | some command =>
      simp only [entryAt, hcommand, bind, Except.bind] at h
      cases hcomplete : command.complete callback a.band with
      | error fault => simp [hcomplete] at h
      | ok result =>
          obtain ⟨completed, verdict⟩ := result
          simp only [hcomplete] at h
          split at h
          next hverdict =>
            obtain ⟨b, followups, hhook, rfl⟩ := Progress.moveTo_terminal
              (by simp [hs, Status.isTerminal]) (verdict_status_isTerminal hverdict) h
            exact .stopped hcommand hcomplete hverdict hhook
          next hverdict =>
            cases Decidable.not_not.mp hverdict
            have hindex : action.index < action.commands.length :=
              (List.getElem?_eq_some_iff.mp hcommand).1
            split at h
            next hlast =>
              obtain ⟨b, followups, hhook, rfl⟩ := Progress.moveTo_terminal
                (by simp [hs, Status.isTerminal]) rfl h
              exact .finished hcommand hcomplete (by omega) hhook
            next hlast =>
              have hlt : action.index + 1 < action.commands.length := by omega
              have hnext : action.commands[action.index + 1]? =
                  some (action.commands.get ⟨action.index + 1, hlt⟩) := by
                simp [hlt]
              have hset : (action.commands.set action.index completed)[action.index + 1]? =
                  some (action.commands.get ⟨action.index + 1, hlt⟩) := by
                rwa [List.getElem?_set_ne (by omega)]
              rw [Progress.issue_eq accepts hs hset] at h
              cases Except.ok.inj h
              cases haccepted :
                  (action.commands.get ⟨action.index + 1, hlt⟩).accepted accepts with
              | true => simpa [hs] using Advances.issued hcommand hcomplete hnext haccepted
              | false => simpa using Advances.refused hcommand hcomplete hnext haccepted

theorem abort_error (hs : action.status = .running) :
    action.abort .error a = .ok
      { action := { action with status := .error }, attributes := a } := by
  rw [abort, if_pos (show Status.error.isTerminal = true from rfl),
    Progress.moveTo_error (by simp [hs, Status.isTerminal])]

theorem Advances.hear_eq {callback : Callback} (h : Advances accepts action callback a p)
    (hs : action.status = .running) : action.hear accepts callback a = .ok p := by
  have hrunning : action.status.isTerminal = false := by simp [hs, Status.isTerminal]
  rw [hear, if_neg (by simp [hs])]
  cases h with
  | @stopped _ _ verdict _ _ hcommand hcomplete hverdict hhook =>
      simp only [entryAt, hcommand, bind, Except.bind, hcomplete]
      rw [if_pos hverdict]
      exact Progress.moveTo_of_hook hrunning (verdict_status_isTerminal hverdict) hhook
  | finished hcommand hcomplete hlast hhook =>
      simp only [entryAt, hcommand, bind, Except.bind, hcomplete]
      rw [if_neg (by simp), if_pos (by omega)]
      exact Progress.moveTo_of_hook hrunning rfl hhook
  | @refused _ completed next hcommand hcomplete hnext haccepted
  | @issued _ completed next hcommand hcomplete hnext haccepted =>
      have hlength : ¬ action.commands.length ≤ action.index + 1 :=
        Nat.not_le.mpr (List.getElem?_eq_some_iff.mp hnext).1
      have hentry : (action.commands.set action.index completed)[action.index + 1]? = some next := by
        rw [List.getElem?_set_ne (by omega)]
        exact hnext
      simp only [entryAt, hcommand, bind, Except.bind, hcomplete]
      rw [if_neg (by simp), if_neg hlength, Progress.issue_eq accepts hs hentry, haccepted]
      simp [hs]

end Action

end FmTuner
