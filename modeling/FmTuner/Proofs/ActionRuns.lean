import FmTuner.Proofs.Accounts
import FmTuner.Proofs.Ranges

/-!
# Runs of an action

An action that was just made is called in any way: it is executed, hears callbacks and is aborted,
in any order and as often as anybody likes. From one call to the next the link may change its mind
about commands, and the attributes may be changed by others. A call that faults leaves an action as
well, and the run goes on with that one.

`Action.Responds` says what a single call can come to. Over a run, the status only moves on, the
exchanges are those of the commands one after another, and the hook is applied in the call in which
the action ends, and in no other.
-/

namespace FmTuner

/-! ## Statuses -/

/-- A status, and one that an action can have later. -/
inductive Status.Leads : Status → Status → Prop where
  | stay (s : Status) : Leads s s
  | start : Leads .idle .running
  | finish {s t : Status} (hs : s.isTerminal = false) (ht : t.isTerminal = true) : Leads s t

theorem Status.Leads.trans {s t u : Status} (h : s.Leads t) (hlater : t.Leads u) : s.Leads u := by
  cases h with
  | stay => exact hlater
  | start =>
      cases hlater with
      | stay => exact .start
      | finish _ hu => exact .finish rfl hu
  | finish hs ht =>
      cases hlater with
      | stay => exact .finish hs ht
      | start => cases ht
      | finish ht' => simp [ht] at ht'

/-- A status becomes terminal where it was not before, and only there. -/
theorem Status.Leads.count {s t : Status} (h : s.Leads t) :
    (if s.isTerminal then 1 else 0) + (if !s.isTerminal && t.isTerminal then 1 else 0) =
      if t.isTerminal then 1 else 0 := by
  cases h with
  | stay => cases s.isTerminal <;> rfl
  | start => rfl
  | finish hs ht => simp [hs, ht]

/-! ## Exchanges -/

namespace Exchange

/-- The command that an exchange sends, with its place in the list. -/
def issue? : Exchange → Option (Command × Nat)
  | .issued index command _ => some (command, index)
  | .answered .. => none

/-- What the first of the commands that are left has come to, when `count` others were confirmed:
it was not sent, it was sent, or it was sent, taken and answered without success. -/
inductive Unsettled (count : Nat) : List Command → List Exchange → Prop where
  | unsent (left : List Command) : Unsettled count left []
  | sent (next : Command) (rest : List Command) (accepted : Bool) :
      Unsettled count (next :: rest) [.issued count next accepted]
  | unconfirmed (next : Command) (rest : List Command) (completed : Command) (callback : Callback)
      {verdict : Verdict} (hverdict : verdict ≠ .success) :
      Unsettled count (next :: rest)
        [.issued count next true, .answered count completed callback verdict]

theorem issues_ofRounds (rounds : List Round) :
    (ofRounds rounds).filterMap issue? = (rounds.map Round.command).zipIdx := by
  induction rounds using List.reverseRecOn with
  | nil => rfl
  | append_singleton rounds r ih =>
      rw [ofRounds_snoc, List.filterMap_append, ih, List.map_append, List.zipIdx_append]
      simp [issue?]

theorem Unsettled.issues_prefix {count : Nat} {left : List Command} {tail : List Exchange}
    (h : Unsettled count left tail) : tail.filterMap issue? <+: left.zipIdx count := by
  cases h with
  | unsent => exact List.nil_prefix
  | sent next rest | unconfirmed next rest => exact List.prefix_append [(next, count)] _

end Exchange

theorem Progress.moveTo_fault {p : Progress} {status : Status} {fault : ActionFault}
    (h : p.moveTo status = .error fault) :
    p.action.status.isTerminal = false ∧ status.isTerminal = true ∧
      fault.action = { p.action with status := status } ∧
        p.action.hook.apply status p.action.commands p.attributes = .error fault.fault := by
  rw [moveTo] at h
  split at h
  next => simp at h
  next hopen =>
    dsimp only at h
    split at h
    next hstatus =>
      split at h
      next => simp at h
      next hhook =>
        cases h
        exact ⟨by simpa using fun hended ↦ hopen (.inl hended), hstatus, rfl, hhook⟩
    next => simp at h

namespace Action

/-! ## Single calls -/

inductive Prompt where
  | execute
  | hear (callback : Callback)
  | abort (status : Status)
  deriving DecidableEq, Repr

/-- A call to an action, which commands the link takes then, and the attributes at that time. -/
structure Cue where
  prompt : Prompt
  accepts : Call → Bool
  attributes : Attributes

abbrev Reply := Except ActionFault Progress

def respond (action : Action) (cue : Cue) : Reply :=
  match cue.prompt with
  | .execute => action.execute cue.accepts cue.attributes
  | .hear callback => action.hear cue.accepts callback cue.attributes
  | .abort status => action.abort status cue.attributes

namespace Reply

def action : Reply → Action
  | .ok p => p.action
  | .error fault => fault.action

/-- What was exchanged with the chip. A call that faults has sent nothing. -/
def exchanges : Reply → List Exchange
  | .ok p => p.exchanges
  | .error _ => []

/-- The attributes after a call, and the operations that it asks for. -/
def effect : Reply → Except Fault (Attributes × List Operation)
  | .ok p => .ok (p.attributes, p.followups)
  | .error fault => .error fault.fault

end Reply

/-- What a call can come to: nothing at all, the beginning of the action, a callback for an action
that runs, an end from outside, or a fault of the hook when the action has ended. -/
inductive Responds (action : Action) (cue : Cue) : Reply → Prop where
  | ignored : Responds action cue (.ok { action, attributes := cue.attributes })
  | begins {p : Progress} (hidle : action.status = .idle)
      (hbegins : action.Begins cue.accepts cue.attributes p) : Responds action cue (.ok p)
  | advances {p : Progress} {callback : Callback} (hprompt : cue.prompt = .hear callback)
      (hrunning : action.status = .running)
      (hadvances : action.Advances cue.accepts callback cue.attributes p) :
      Responds action cue (.ok p)
  | aborted {status : Status} {b : Attributes} {followups : List Operation}
      (hopen : action.status.isTerminal = false) (hended : status.isTerminal = true)
      (hhook : action.hook.apply status action.commands cue.attributes = .ok (b, followups)) :
      Responds action cue
        (.ok { action := { action with status := status }, attributes := b, followups })
  | faulted {fault : ActionFault} (hopen : action.status.isTerminal = false)
      (hended : fault.action.status.isTerminal = true) (hsame : fault.action.hook = action.hook)
      (hhook : action.hook.apply fault.action.status fault.action.commands cue.attributes =
        .error fault.fault) : Responds action cue (.error fault)

section

variable {action : Action} {cue : Cue} {reply : Reply}

/-- A command waits for its callback while the action runs, and a read among them is whole. -/
def Awaits (action : Action) : Prop :=
  action.status = .running →
    ∃ command, action.commands[action.index]? = some command ∧ command.ReadsWhole

theorem responds_of_moveTo {p : Progress} {status : Status} {fault : ActionFault}
    (h : p.moveTo status = .error fault) (hstatus : p.action.status = action.status)
    (hhook : p.action.hook = action.hook) (ha : p.attributes = cue.attributes) :
    action.Responds cue (.error fault) := by
  obtain ⟨hopen, hended, haction, happly⟩ := Progress.moveTo_fault h
  rw [hstatus] at hopen
  rw [hhook, ha] at happly
  refine .faulted hopen ?_ ?_ ?_ <;> rw [haction]
  · exact hended
  · exact hhook
  · exact happly

theorem responds_execute {accepts : Call → Bool} {a : Attributes} :
    action.Responds ⟨.execute, accepts, a⟩ (action.execute accepts a) := by
  by_cases hidle : action.status = .idle
  · cases h : action.execute accepts a with
    | ok p => exact .begins hidle (begins_of_execute hidle h)
    | error fault =>
        rw [execute, if_neg (by simp [hidle])] at h
        split at h
        next => exact responds_of_moveTo h rfl rfl rfl
        next hcommands =>
          obtain ⟨first, rest, hcons⟩ := List.exists_cons_of_ne_nil hcommands
          have hentry : action.commands[0]? = some first := by simp [hcons]
          rw [Progress.issue_eq accepts rfl hentry] at h
          simp at h
  · rw [execute, if_pos hidle]
    exact .ignored

theorem responds_hear (hawaits : action.Awaits) {accepts : Call → Bool} {callback : Callback}
    {a : Attributes} (hband : a.band.FitsWords) :
    action.Responds ⟨.hear callback, accepts, a⟩ (action.hear accepts callback a) := by
  by_cases hrunning : action.status = .running
  · cases h : action.hear accepts callback a with
    | ok p => exact .advances rfl hrunning (advances_of_hear hrunning h)
    | error fault =>
        obtain ⟨command, hcommand, hwhole⟩ := hawaits hrunning
        obtain ⟨completed, verdict, hcomplete, -⟩ := Command.exists_complete hband hwhole callback
        rw [hear, if_neg (by simp [hrunning])] at h
        simp only [entryAt, hcommand, bind, Except.bind, hcomplete] at h
        -- Only the hook of an action that ends can fault; the next command is there to be sent.
        split at h
        next => exact responds_of_moveTo h rfl rfl rfl
        next =>
          split at h
          next => exact responds_of_moveTo h rfl rfl rfl
          next hnext =>
            have hentry : (action.commands.set action.index completed)[action.index + 1]? =
                some (action.commands.get ⟨action.index + 1, Nat.lt_of_not_le hnext⟩) := by
              rw [List.getElem?_set_ne (by omega)]
              simp [Nat.lt_of_not_le hnext]
            rw [Progress.issue_eq accepts hrunning hentry] at h
            simp at h
  · rw [hear, if_pos hrunning]
    exact .ignored

theorem responds_abort {accepts : Call → Bool} {status : Status} {a : Attributes} :
    action.Responds ⟨.abort status, accepts, a⟩ (action.abort status a) := by
  rw [abort]
  split
  next hended =>
    cases hopen : action.status.isTerminal with
    | true =>
        rw [Progress.moveTo, if_pos (.inl hopen)]
        exact .ignored
    | false =>
        cases h : Progress.moveTo { action, attributes := a } status with
        | ok p =>
            obtain ⟨b, followups, hhook, rfl⟩ := Progress.moveTo_terminal hopen hended h
            exact .aborted hopen hended hhook
        | error fault => exact responds_of_moveTo h rfl rfl rfl
  next => exact .ignored

theorem responds_respond (hawaits : action.Awaits) (hband : cue.attributes.band.FitsWords) :
    action.Responds cue (action.respond cue) := by
  obtain ⟨prompt, accepts, a⟩ := cue
  cases prompt with
  | execute => exact responds_execute
  | hear callback => exact responds_hear hawaits hband
  | abort status => exact responds_abort

namespace Responds

theorem hook (h : action.Responds cue reply) : reply.action.hook = action.hook := by
  cases h with
  | ignored | aborted => rfl
  | begins _ hbegins => exact hbegins.same.2
  | advances _ _ hadvances => exact hadvances.same.2
  | faulted _ _ hsame => exact hsame

theorem leads (h : action.Responds cue reply) : action.status.Leads reply.action.status := by
  cases h with
  | ignored => exact .stay _
  | begins hidle hbegins =>
      rw [hidle]
      cases hbegins with
      | empty | refused => exact .finish rfl rfl
      | issued => exact .start
  | advances _ hrunning hadvances =>
      rw [hrunning]
      cases hadvances with
      | stopped _ _ hverdict => exact .finish rfl (verdict_status_isTerminal hverdict)
      | finished | refused => exact .finish rfl rfl
      | issued => exact hrunning ▸ .stay _
  | aborted hopen hended => exact .finish hopen hended
  | faulted hopen hended => exact .finish hopen hended

/-- The hook is applied if the call ends the action, and otherwise nothing changes. -/
theorem effect (h : action.Responds cue reply) :
    reply.effect =
      if action.status.isTerminal = false ∧ reply.action.status.isTerminal = true then
        action.hook.apply reply.action.status reply.action.commands cue.attributes
      else .ok (cue.attributes, []) := by
  cases h with
  | ignored => simp [Reply.effect, Reply.action]
  | begins hidle hbegins =>
      cases hbegins with
      | empty hcommands hhook =>
          simp [Reply.effect, Reply.action, hidle, Status.isTerminal, hcommands, hhook]
      | refused =>
          simp [Reply.effect, Reply.action, hidle, Status.isTerminal, Hook.apply_error]
      | issued => simp [Reply.effect, Reply.action, Status.isTerminal]
  | advances _ hrunning hadvances =>
      cases hadvances with
      | stopped _ _ hverdict hhook =>
          have hopen : Status.running.isTerminal = false := rfl
          simp [Reply.effect, Reply.action, hrunning, hopen, hhook,
            verdict_status_isTerminal hverdict]
      | finished _ _ _ hhook =>
          simp [Reply.effect, Reply.action, hrunning, Status.isTerminal, hhook]
      | refused =>
          simp [Reply.effect, Reply.action, hrunning, Status.isTerminal, Hook.apply_error]
      | issued => simp [Reply.effect, Reply.action, hrunning, Status.isTerminal]
  | aborted hopen hended hhook => simp [Reply.effect, Reply.action, hopen, hended, hhook]
  | faulted hopen hended _ hhook => simp [Reply.effect, Reply.action, hopen, hended, hhook]

end Responds

end

/-! ## Runs -/

structure Step where
  before : Action
  cue : Cue
  reply : Reply

namespace Step

def after (s : Step) : Action := s.reply.action

/-- Whether the action ended in this call. -/
def ends (s : Step) : Bool := !s.before.status.isTerminal && s.after.status.isTerminal

end Step

def step (action : Action) (cue : Cue) : Step := ⟨action, cue, action.respond cue⟩

def trace (action : Action) : List Cue → List Step
  | [] => []
  | cue :: rest => action.step cue :: (action.step cue).after.trace rest

def exchanges (steps : List Step) : List Exchange := steps.flatMap fun s ↦ s.reply.exchanges

/-- A command was confirmed by a callback that the action was called with. -/
def Heard (steps : List Step) (r : Round) : Prop :=
  ∃ s ∈ steps, s.cue.prompt = .hear r.callback ∧ r.Confirmed s.cue.attributes.band

/-- What has become of an action after some calls to it. -/
inductive Stage (origin : Action) (steps : List Step) : Action → Prop where
  | fresh (hexchanges : exchanges steps = []) : Stage origin steps origin
  | waiting {rounds : List Round} {next : Command} {rest : List Command}
      (hcommands : origin.commands = rounds.map Round.command ++ next :: rest)
      (hheard : ∀ r ∈ rounds, Heard steps r)
      (hexchanges : exchanges steps =
        Exchange.ofRounds rounds ++ [.issued rounds.length next true]) :
      Stage origin steps
        { origin with
          commands := rounds.map Round.completed ++ next :: rest
          index := rounds.length
          status := .running }
  | concluded {action : Action} {rounds : List Round} {left : List Command} {tail : List Exchange}
      (hended : action.status.isTerminal = true)
      (hcommands : origin.commands = rounds.map Round.command ++ left)
      (hheard : ∀ r ∈ rounds, Heard steps r)
      (hexchanges : exchanges steps = Exchange.ofRounds rounds ++ tail)
      (htail : Exchange.Unsettled rounds.length left tail) : Stage origin steps action

section

variable {origin action : Action} {steps : List Step} {cue : Cue} {reply : Reply}

@[simp] theorem exchanges_append (xs ys : List Step) :
    exchanges (xs ++ ys) = exchanges xs ++ exchanges ys := by
  simp [exchanges]

@[simp] theorem exchanges_single (s : Step) : exchanges [s] = s.reply.exchanges := by
  simp [exchanges]

theorem Heard.append {r : Round} (h : Heard steps r) (later : List Step) :
    Heard (steps ++ later) r := by
  obtain ⟨s, hs, hheard⟩ := h
  exact ⟨s, List.mem_append_left _ hs, hheard⟩

theorem Stage.awaits (h : Stage origin steps action) (hidle : origin.status = .idle)
    (hreads : ∀ command ∈ origin.commands, command.ReadsWhole) : action.Awaits := by
  intro hrunning
  cases h with
  | fresh => simp [hidle] at hrunning
  | @waiting rounds next rest hcommands =>
      exact ⟨next, by simp, hreads next (by simp [hcommands])⟩
  | concluded hended => simp [hrunning, Status.isTerminal] at hended

theorem stage_of_advances {rounds : List Round} {next : Command} {rest : List Command}
    (hcommands : origin.commands = rounds.map Round.command ++ next :: rest)
    (hheard : ∀ r ∈ rounds, Heard steps r)
    (hexchanges : exchanges steps =
      Exchange.ofRounds rounds ++ [.issued rounds.length next true])
    {s : Step} {callback : Callback} {p : Progress} (hprompt : s.cue.prompt = .hear callback)
    (hreply : s.reply = .ok p)
    (hadvances : Advances s.cue.accepts
      { origin with
        commands := rounds.map Round.completed ++ next :: rest
        index := rounds.length
        status := .running }
      callback s.cue.attributes p) :
    Stage origin (steps ++ [s]) p.action := by
  have hearlier : ∀ r ∈ rounds, Heard (steps ++ [s]) r := fun r hr ↦ (hheard r hr).append _
  -- The round that a success closes was heard in this very step.
  have hround : ∀ completed,
      next.complete callback s.cue.attributes.band = .ok (completed, .success) →
        ∀ r ∈ rounds ++ [⟨next, completed, callback⟩], Heard (steps ++ [s]) r := by
    intro completed hcomplete
    rw [List.forall_mem_append, List.forall_mem_singleton]
    exact ⟨hearlier, s, by simp, hprompt, Round.confirmed_of_complete hcomplete⟩
  have hset : ∀ completed,
      (rounds.map Round.completed ++ next :: rest).set rounds.length completed =
        rounds.map Round.completed ++ completed :: rest := by
    simp [List.set_append_right]
  cases hadvances with
  | @stopped command completed verdict b followups hcommand hcomplete hverdict hhook =>
      refine .concluded (verdict_status_isTerminal hverdict) hcommands hearlier ?_
        (.unconfirmed next rest completed callback hverdict)
      simp [hexchanges, hreply, Reply.exchanges]
  | @finished command completed b followups hcommand hcomplete hlast hhook =>
      obtain rfl : next = command := by simpa using hcommand
      obtain rfl : rest = [] := by simpa using hlast
      refine .concluded rfl ?_ (hround completed hcomplete) ?_ (.unsent [])
      · simpa using hcommands
      · simp [hexchanges, hreply, Reply.exchanges]
  | @refused command completed next' hcommand hcomplete hnext haccepted =>
      obtain rfl : next = command := by simpa using hcommand
      obtain ⟨rest', rfl⟩ : ∃ rest', rest = next' :: rest' := by
        cases rest with
        | nil => simp at hnext
        | cons second rest' => exact ⟨rest', by simpa using hnext⟩
      refine .concluded rfl ?_ (hround completed hcomplete) ?_ (.sent next' rest' false)
      · simpa using hcommands
      · simp [hexchanges, hreply, Reply.exchanges]
  | @issued command completed next' hcommand hcomplete hnext haccepted =>
      obtain rfl : next = command := by simpa using hcommand
      obtain ⟨rest', rfl⟩ : ∃ rest', rest = next' :: rest' := by
        cases rest with
        | nil => simp at hnext
        | cons second rest' => exact ⟨rest', by simpa using hnext⟩
      let closed := rounds ++ [⟨next, completed, callback⟩]
      have hstage : Stage origin (steps ++ [s])
          { origin with
            commands := closed.map Round.completed ++ next' :: rest'
            index := closed.length
            status := .running } :=
        .waiting (by simpa [closed] using hcommands) (hround completed hcomplete)
          (by simp [closed, hexchanges, hreply, Reply.exchanges])
      simpa [closed, hset] using hstage

/-- An action that has ended before any of its commands was confirmed. -/
theorem Stage.of_unconfirmed {tail : List Exchange} (hended : action.status.isTerminal = true)
    (hexchanges : exchanges steps = tail) (htail : Exchange.Unsettled 0 origin.commands tail) :
    Stage origin steps action :=
  @Stage.concluded origin steps action [] origin.commands tail hended rfl (by simp) hexchanges htail

theorem Stage.of_issued {first : Command} {rest : List Command}
    (hcommands : origin.commands = first :: rest)
    (hexchanges : exchanges steps = [.issued 0 first true]) :
    Stage origin steps { origin with index := 0, status := .running } := by
  have hstage := @Stage.waiting origin steps [] first rest hcommands (by simp) hexchanges
  simpa [← hcommands] using hstage

theorem Stage.close (h : Stage origin steps action) {s : Step} (hexchanges : s.reply.exchanges = [])
    (hended : s.after.status.isTerminal = true) : Stage origin (steps ++ [s]) s.after := by
  have hsame : exchanges (steps ++ [s]) = exchanges steps := by
    rw [exchanges_append, exchanges_single, hexchanges, List.append_nil]
  cases h with
  | fresh hnone => exact .of_unconfirmed hended (hsame.trans hnone) (.unsent _)
  | @waiting rounds next rest hcommands hheard hissued =>
      refine .concluded hended hcommands (fun r hr ↦ (hheard r hr).append _) ?_
        (.sent next rest true)
      rw [hsame, hissued]
  | concluded _ hcommands hheard htails htail =>
      refine .concluded hended hcommands (fun r hr ↦ (hheard r hr).append _) ?_ htail
      rw [hsame, htails]

theorem Stage.stay (h : Stage origin steps action) {s : Step} (hexchanges : s.reply.exchanges = [])
    (hafter : s.after = action) : Stage origin (steps ++ [s]) s.after := by
  have hsame : exchanges (steps ++ [s]) = exchanges steps := by
    rw [exchanges_append, exchanges_single, hexchanges, List.append_nil]
  rw [hafter]
  cases h with
  | fresh hnone => exact .fresh (hsame.trans hnone)
  | waiting hcommands hheard hissued =>
      exact .waiting hcommands (fun r hr ↦ (hheard r hr).append _) (hsame.trans hissued)
  | concluded hended hcommands hheard htails htail =>
      exact .concluded hended hcommands (fun r hr ↦ (hheard r hr).append _) (hsame.trans htails)
        htail

theorem Stage.next (h : Stage origin steps action) (hidle : origin.status = .idle)
    (hresponds : action.Responds cue reply) :
    Stage origin (steps ++ [⟨action, cue, reply⟩]) reply.action := by
  cases hresponds with
  | ignored => exact h.stay (s := ⟨action, cue, _⟩) rfl rfl
  | aborted _ hended => exact h.close (s := ⟨action, cue, _⟩) rfl hended
  | faulted _ hended => exact h.close (s := ⟨action, cue, _⟩) rfl hended
  | begins hstatus hbegins =>
      cases h with
      | waiting => simp at hstatus
      | concluded hended => simp [hstatus, Status.isTerminal] at hended
      | fresh hnone =>
          cases hbegins with
          | empty =>
              refine .of_unconfirmed rfl ?_ (.unsent _)
              simp [hnone, Reply.exchanges]
          | @refused first rest hcommands =>
              have htail : Exchange.Unsettled 0 origin.commands [.issued 0 first false] := by
                rw [hcommands]
                exact .sent first rest false
              exact .of_unconfirmed rfl (by simp [hnone, Reply.exchanges]) htail
          | issued hcommands => exact .of_issued hcommands (by simp [hnone, Reply.exchanges])
  | advances hprompt hrunning hadvances =>
      cases h with
      | fresh => simp [hidle] at hrunning
      | concluded hended => simp [hrunning, Status.isTerminal] at hended
      | waiting hcommands hheard hissued =>
          exact stage_of_advances hcommands hheard hissued (s := ⟨_, cue, _⟩) hprompt rfl hadvances

/-- What is true of an action after some calls to it, and was true in each of them. -/
structure Lived (origin : Action) (steps : List Step) (action : Action) : Prop where
  stage : Stage origin steps action
  hook : action.hook = origin.hook
  moves : (origin.status :: steps.map fun s ↦ s.after.status).Pairwise Status.Leads
  current : ∀ status ∈ origin.status :: steps.map fun s ↦ s.after.status, status.Leads action.status
  ends : steps.countP Step.ends = if action.status.isTerminal then 1 else 0
  index : ∀ s ∈ steps, s.after.status = .running → s.after.index < s.after.commands.length
  effects : ∀ s ∈ steps, s.reply.effect =
    if s.ends then origin.hook.apply s.after.status s.after.commands s.cue.attributes
    else .ok (s.cue.attributes, [])

theorem lived_start (hidle : origin.status = .idle) : Lived origin [] origin where
  stage := .fresh rfl
  hook := rfl
  moves := by simp
  current := by simpa using Status.Leads.stay origin.status
  ends := by simp [hidle, Status.isTerminal]
  index := by simp
  effects := by simp

theorem Stage.index_lt (h : Stage origin steps action) (hidle : origin.status = .idle)
    (hrunning : action.status = .running) : action.index < action.commands.length := by
  cases h with
  | fresh => simp [hidle] at hrunning
  | waiting => simp
  | concluded hended => simp [hrunning, Status.isTerminal] at hended

theorem Lived.next (h : Lived origin steps action) (hidle : origin.status = .idle)
    (hresponds : action.Responds cue reply) :
    Lived origin (steps ++ [⟨action, cue, reply⟩]) reply.action := by
  have hstage := h.stage.next hidle hresponds
  have hleads := hresponds.leads
  have hlater : ∀ status ∈ origin.status :: steps.map fun s ↦ s.after.status,
      status.Leads reply.action.status :=
    fun status hstatus ↦ (h.current status hstatus).trans hleads
  refine ⟨hstage, hresponds.hook.trans h.hook, ?_, ?_, ?_, ?_, ?_⟩
  · rw [List.map_append, ← List.cons_append, List.pairwise_append]
    exact ⟨h.moves, by simp, by simpa [Step.after] using hlater⟩
  · rw [List.map_append, ← List.cons_append, List.forall_mem_append]
    exact ⟨hlater, by simpa [Step.after] using Status.Leads.stay reply.action.status⟩
  · rw [List.countP_append, h.ends, List.countP_singleton]
    exact hleads.count
  · rw [List.forall_mem_append, List.forall_mem_singleton]
    exact ⟨h.index, hstage.index_lt hidle⟩
  · rw [List.forall_mem_append, List.forall_mem_singleton]
    refine ⟨h.effects, ?_⟩
    simpa [Step.ends, Step.after, h.hook] using hresponds.effect

theorem Lived.trace (h : Lived origin steps action) (hidle : origin.status = .idle)
    (hreads : ∀ command ∈ origin.commands, command.ReadsWhole) {cues : List Cue}
    (hbands : ∀ cue ∈ cues, cue.attributes.band.FitsWords) :
    ∃ last, Lived origin (steps ++ action.trace cues) last := by
  -- Each call starts from the action that the one before has left, and what was lived grows by it.
  induction cues generalizing steps action with
  | nil => exact ⟨action, by simpa [Action.trace] using h⟩
  | cons cue rest ih =>
      rw [List.forall_mem_cons] at hbands
      have hresponds := responds_respond (h.stage.awaits hidle hreads) hbands.1
      obtain ⟨last, hlast⟩ := ih (h.next hidle hresponds) hbands.2
      exact ⟨last, by simpa [Action.trace, Action.step, Step.after] using hlast⟩

/-- What was exchanged, as a whole: the confirmed commands, and what became of the next one. -/
theorem Stage.exchanges_eq (h : Stage origin steps action) :
    ∃ rounds left tail, origin.commands = rounds.map Round.command ++ left ∧
      (∀ r ∈ rounds, Heard steps r) ∧ exchanges steps = Exchange.ofRounds rounds ++ tail ∧
        Exchange.Unsettled rounds.length left tail := by
  cases h with
  | fresh hnone => exact ⟨[], origin.commands, [], rfl, by simp, hnone, .unsent _⟩
  | waiting hcommands hheard hissued =>
      exact ⟨_, _, _, hcommands, hheard, hissued, .sent _ _ true⟩
  | concluded _ hcommands hheard htails htail => exact ⟨_, _, _, hcommands, hheard, htails, htail⟩

end

end Action

/-- However an action is called, its status only moves on, from idle over running to its end, and a
command waits for its callback as long as it runs. What it sends is a prefix of its commands; each
of them is sent once, and only when the ones before were confirmed by callbacks that the action was
called with. In the one call in which it ends, the hook is applied and asks for at most one
operation; every other call leaves the attributes alone and asks for nothing. -/
theorem action_lives_once {operation : Operation} {commands : List Command} {hook : Hook}
    (hreads : ∀ command ∈ commands, command.ReadsWhole) {cues : List Action.Cue}
    (hbands : ∀ cue ∈ cues, cue.attributes.band.FitsWords) :
    let steps := Action.trace { operation, commands, hook } cues
    (Status.idle :: steps.map fun s ↦ s.after.status).Pairwise Status.Leads ∧
    (∀ s ∈ steps, s.after.status = .running → s.after.index < s.after.commands.length) ∧
    (Action.exchanges steps).filterMap Exchange.issue? <+: commands.zipIdx ∧
    (∃ (rounds : List Round) (left : List Command) (tail : List Exchange),
      commands = rounds.map Round.command ++ left ∧
      (∀ r ∈ rounds, ∃ s ∈ steps,
        s.cue.prompt = .hear r.callback ∧ r.Confirmed s.cue.attributes.band) ∧
      Action.exchanges steps = Exchange.ofRounds rounds ++ tail ∧
      Exchange.Unsettled rounds.length left tail) ∧
    steps.countP Action.Step.ends ≤ 1 ∧
    (∀ s ∈ steps, s.reply.effect =
      if s.ends then hook.apply s.after.status s.after.commands s.cue.attributes
      else .ok (s.cue.attributes, [])) ∧
    ∀ s ∈ steps, ∀ a followups, s.reply.effect = .ok (a, followups) → followups.length ≤ 1 := by
  intro steps
  let action : Action := { operation, commands, hook }
  obtain ⟨last, hlived⟩ := (@Action.lived_start action rfl).trace rfl hreads hbands
  rw [List.nil_append] at hlived
  change action.Lived steps last at hlived
  obtain ⟨rounds, left, tail, hcommands, hheard, hexchanges, htail⟩ := hlived.stage.exchanges_eq
  refine ⟨hlived.moves, hlived.index, ?_,
    ⟨rounds, left, tail, hcommands, hheard, hexchanges, htail⟩, ?_, hlived.effects,
    fun s hs a followups heffect ↦ ?_⟩
  · have hprefix := htail.issues_prefix
    change commands = _ at hcommands
    rw [hexchanges, List.filterMap_append, Exchange.issues_ofRounds, hcommands, List.zipIdx_append]
    simpa using hprefix
  · rw [hlived.ends]
    split <;> simp
  · rw [hlived.effects s hs] at heffect
    split at heffect
    next =>
      rcases Hook.followups_of_apply heffect with rfl | ⟨operation, rfl, -⟩ <;> simp
    next =>
      cases heffect
      simp

namespace Action

def fullPoll : Action where
  operation := .pollScan .full
  commands := [.pollStatus, .readFrequency, .readSignal]
  hook := .scanPolled .full 50

/-- A callback that comes too early, an end that is none, the answers to all reads with another call
to execute the action in between, and calls that come too late. -/
def pollCues : List Cue :=
  [.hear (.vendor 0xfc15 [0, 18, 1, 1, 0]), .execute, .abort .running,
    .hear (.vendor 0xfc15 [0, 18, 1, 65, 0]), .execute,
    .hear (.vendor 0xfc15 [0, 10, 1, 160, 140]), .hear (.vendor 0xfc15 [0, 15, 1, 70]),
    .abort .error, .hear (.vendor 0xfc15 [0, 15, 1, 70])].map
      fun prompt ↦ ⟨prompt, fun _ ↦ true, {}⟩

end Action

theorem poll_lives_once :
    ((Action.fullPoll.trace Action.pollCues).map fun s ↦ s.after.status) =
      [.idle, .running, .running, .running, .running, .running, .done, .done, .done] ∧
    (Action.exchanges (Action.fullPoll.trace Action.pollCues)).filterMap Exchange.issue? =
      [(.pollStatus, 0), (.readFrequency, 1), (.readSignal, 2)] ∧
    ((Action.fullPoll.trace Action.pollCues).filterMap fun s ↦
      s.reply.effect.toOption).flatMap Prod.snd = [.scanStep] ∧
    (Action.fullPoll.trace Action.pollCues).countP Action.Step.ends ≤ 1 := by
  have hlife := @action_lives_once (.pollScan .full) Action.fullPoll.commands (.scanPolled .full 50)
    (by decide) Action.pollCues (by decide)
  exact ⟨rfl, rfl, rfl, hlife.2.2.2.2.1⟩

end FmTuner
