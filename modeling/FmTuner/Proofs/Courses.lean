import FmTuner.Proofs.Searching

/-!
# Courses of transitions

How whole transitions go on a chip that takes their commands: one that only writes is carried out
from end to end, and a poll is cancelled while the search is busy, fails when there is no channel to
read and otherwise reads the station.
-/

namespace FmTuner

namespace Scene

variable {timing : Timing} {s u : Scene}

/-- A request is in flight at a radio that is in a state. -/
def Carries (state : RadioState) (r : Request) (s : Scene) : Prop :=
  s.state = state ∧ ∃ f, s.flight = some f ∧ f.request = r

def Scanning (s : Scene) : Prop := s.state = .scanning

theorem Carries.scanning {r : Request} (h : s.Carries .scanning r) : s.Scanning := h.1

/-! ## Plans that are carried out -/

theorem course_of_obeys {d : Chip} {f : Flight} (hflight : s.flight = some f)
    (hcomplete : ∀ band, f.waiting.complete f.answer band = .ok (f.waiting, .success))
    (hobeys : s.chip.Obeys f.left d) {b : Attributes}
    (hhook : f.hook.apply .done (f.answered ++ f.waiting :: f.left) s.attributes = .ok (b, []))
    (timing : Timing) :
    Course timing (Carries s.state f.request) (f.left.length + 1) s
      ({ s with chip := d }.settled f.request f.destination .done b) := by
  -- By induction on the commands that are left: every answer lets the next one be issued.
  induction hleft : f.left generalizing s f with
  | nil =>
      rw [hleft] at hobeys hhook
      cases hobeys
      exact .single ⟨rfl, f, hflight, rfl⟩ (.rest (.finished hflight (hcomplete _) hleft hhook))
  | cons next rest ih =>
      rw [hleft] at hobeys hhook
      cases hobeys with
      | @cons _ e _ _ _ answer hissues hnext hrest =>
          let g : Flight :=
            { f with answered := f.answered ++ [f.waiting], waiting := next, left := rest, answer }
          have hdelivers : s.Delivers timing { s with chip := e, flight := some g } :=
            .advance hflight (hcomplete _) hleft hissues
          have hlater := ih (s := { s with chip := e, flight := some g }) (f := g) rfl hnext hrest
            (by simpa [g] using hhook) rfl
          exact .head ⟨rfl, f, hflight, rfl⟩ hdelivers hlater

/-- A request whose commands are all confirmed is done. -/
theorem carries_out {r : Request} {destination : RadioState} {plan : Plan}
    (hroute : route s.state r.operation = .accept destination)
    (hplan : Plan.build timing r.operation s.attributes s.scanMode = .ok (some plan)) {d : Chip}
    (hobeys : s.chip.Obeys plan.action.commands d) {b : Attributes}
    (hhook : plan.action.hook.apply .done plan.action.commands s.attributes = .ok (b, [])) :
    ∃ u, s.Begins timing r u ∧
      Course timing (Carries s.state r) plan.action.commands.length u
        ({ s.reported plan with chip := d }.settled r destination .done b) := by
  cases hcommands : plan.action.commands with
  | nil =>
      rw [hcommands] at hobeys hhook
      cases hobeys
      exact ⟨_, .flash hroute hplan hcommands hhook, .refl _ _⟩
  | cons first left =>
      rw [hcommands] at hobeys hhook
      cases hobeys with
      | @cons _ e _ _ _ answer hissues hcomplete hrest =>
          let f : Flight :=
            { request := r, hook := plan.action.hook, answered := [], waiting := first, left,
              destination, answer }
          refine ⟨_, .issue hroute hplan hcommands hissues, ?_⟩
          exact course_of_obeys (s := { s.reported plan with chip := e, flight := some f }) (f := f)
            rfl hcomplete hrest hhook timing

/-! ## Searches and reports -/

/-- The ledger after a request that was done. -/
def closed (s : Scene) (r : Request) (results : List Notification) : Ledger :=
  s.ledger ++ { results, endings := [(r.operation, .done)], reports := r.id.toList.map (·, .done) }

/-- A scan that has begun and waits for its search, which has led to a chip. -/
def searching (s : Scene) (r : Request) (mode : ScanMode) (attributes : Attributes) (chip : Chip) :
    Scene where
  state := .scanning
  scanMode := some mode
  attributes
  chip
  ledger := s.closed r []
  flight := none

/-- A request that starts a search leads to a scan that waits for it. -/
theorem course_search {r : Request} {commands : List Command} {hook : Hook} {mode : ScanMode}
    (hroute : route s.state r.operation = .accept .scanning)
    (hplan : Plan.build timing r.operation s.attributes s.scanMode =
      .ok (some (.ofCommands r.operation commands hook)))
    (hmode : r.operation.scanMode.or s.scanMode = some mode) {b : Attributes}
    (hhook : ∀ commands, hook.apply .done commands s.attributes = .ok (b, [])) {d : Chip}
    (hobeys : s.chip.Obeys commands d) :
    ∃ u, s.Begins timing r u ∧
      Course timing (Carries s.state r) commands.length u (s.searching r mode b d) := by
  obtain ⟨u, hbegins, hcourse⟩ := carries_out hroute hplan hobeys (hhook _)
  refine ⟨u, hbegins, ?_⟩
  simpa [Plan.ofCommands, settled, target, reported, searching, closed, Status.outcome, hmode]
    using hcourse

/-- A scan that was brought to its end. -/
def scanned (s : Scene) (mode : ScanMode) (aborted : Bool) (chip : Chip) : Scene where
  state := .started
  scanMode := none
  attributes := s.attributes
  chip
  ledger := s.closed { id := none, operation := .scanDone mode aborted }
    [Plan.scanNotice mode aborted s.attributes]
  flight := none

/-- A scan that is brought to its end is reported, and the chip is tuned to the known frequency. -/
theorem course_done (hstate : s.state = .scanning) (hpowered : s.chip.powered = true)
    (hknown : ∀ f, s.attributes.frequency = some f → f.InRegister) (mode : ScanMode)
    (aborted : Bool) (timing : Timing) :
    ∃ u d, s.Begins timing { id := none, operation := .scanDone mode aborted } u ∧
      s.chip.Same d ∧ (∀ f, s.attributes.frequency = some f → d.tuned = f) ∧
      Course timing Scanning 2 u (s.scanned mode aborted d) := by
  let commands := (s.attributes.frequency.map Plan.tuneCommands).getD []
  obtain ⟨d, hobeys, hsame, htuned⟩ : ∃ d, s.chip.Obeys commands d ∧ s.chip.Same d ∧
      ∀ f, s.attributes.frequency = some f → d.tuned = f := by
    cases hfrequency : s.attributes.frequency with
    | none =>
        refine ⟨s.chip, ?_, ⟨rfl, rfl, rfl, rfl⟩, by simp⟩
        simpa [commands, hfrequency] using Chip.Obeys.nil s.chip
    | some f =>
        obtain ⟨d, hobeys, hsame, htuned, -⟩ :=
          Chip.obeys_tuneCommands hpowered (hknown f hfrequency)
        refine ⟨d, ?_, hsame, fun g hg ↦ htuned.trans (Option.some.inj hg)⟩
        simpa [commands, hfrequency] using hobeys
  have hlength : commands.length ≤ 2 := by
    cases hfrequency : s.attributes.frequency <;> simp [commands, hfrequency, Plan.tuneCommands]
  have hresult : (Plan.scanNotice mode aborted s.attributes).isScanResult = true := by
    cases mode <;> rfl
  have hroute : route s.state (.scanDone mode aborted) = .accept .started := by rw [hstate]; rfl
  have hplan : Plan.build timing (.scanDone mode aborted) s.attributes s.scanMode =
      .ok (some { Plan.ofCommands (.scanDone mode aborted) commands .none with
        notices := [Plan.scanNotice mode aborted s.attributes] }) := rfl
  obtain ⟨u, hbegins, hcourse⟩ := carries_out (r := { id := none, operation := .scanDone mode aborted })
    hroute hplan hobeys (b := s.attributes) rfl
  have hscanning : Course timing Scanning 2 u _ :=
    (hcourse.le hlength).mono fun v hv ↦ hv.1.trans hstate
  refine ⟨u, d, hbegins, hsame, htuned, ?_⟩
  simpa [settled, target, reported, hresult, scanned, closed, Ledger.append_assoc] using hscanning

end Scene

/-! ## Polls -/

/-- What a poll reads of a chip that is tuned to a station near the channel `f`. -/
def Chip.readings (c : Chip) (f : Freq) : Readings where
  frequency := some f
  signal := some (c.rssiAt c.tuned)
  stereo := some (c.stereoAt c.tuned)

/-- What scans keep of the attributes: the settings, and that a frequency is known. -/
structure Attributes.Retains (a b : Attributes) : Prop where
  band : b.band = a.band
  threshold : b.threshold = a.threshold
  forceMono : b.forceMono = a.forceMono
  known : a.frequency.isSome = true → b.frequency.isSome = true

namespace Attributes.Retains

variable {a b d : Attributes}

theorem refl (a : Attributes) : a.Retains a := ⟨rfl, rfl, rfl, id⟩

theorem trans (h : a.Retains b) (hd : b.Retains d) : a.Retains d :=
  ⟨hd.band.trans h.band, hd.threshold.trans h.threshold, hd.forceMono.trans h.forceMono,
    hd.known ∘ h.known⟩

end Attributes.Retains

namespace Scene

variable {timing : Timing} {s : Scene}

/-- A scan that waits for its next poll. -/
structure InScan (s : Scene) (mode : ScanMode) : Prop where
  state : s.state = .scanning
  scanMode : s.scanMode = some mode
  flight : s.flight = none
  powered : s.chip.powered = true

variable {mode : ScanMode}

/-- The scene after a poll that has ended with a status. -/
def polled (s : Scene) (mode : ScanMode) (status : Status) (chip : Chip)
    (attributes : Attributes) : Scene :=
  { s with
    chip
    attributes
    ledger := s.ledger ++ { endings := [(.pollScan mode, status)] } }

/-- The scene after the polls that find the search busy. -/
def waited (s : Scene) (mode : ScanMode) : Scene :=
  { s with
    chip := { s.chip with busyReads := 0 }
    ledger := s.ledger ++
      { endings := List.replicate s.chip.busyReads (.pollScan mode, .cancel) } }

/-- The scene while a poll is in flight. -/
def polling (s : Scene) (mode : ScanMode) (capacity : Nat) (chip : Chip)
    (answered : List Command) (waiting : Command) (left : List Command) (answer : Callback) :
    Scene :=
  { s with
    chip
    flight := some
      { request := { id := none, operation := .pollScan mode }, hook := .scanPolled mode capacity,
        answered, waiting, left, destination := .scanning, answer } }

namespace InScan

variable {d : Chip} {answered left : List Command} {waiting completed : Command}
  {answer : Callback} {capacity : Nat}

theorem waited (h : s.InScan mode) : (s.waited mode).InScan mode :=
  ⟨h.state, h.scanMode, h.flight, h.powered⟩

theorem settled (h : s.InScan mode) {status : Status}
    (hstatus : status = .done ∨ status = .cancel ∨ status = .fail) (a : Attributes) :
    (s.polling mode capacity d answered waiting left answer).settled
      { id := none, operation := .pollScan mode } .scanning status a =
        s.polled mode status d a := by
  obtain ⟨hstate, -, hflight, -⟩ := h
  have htarget : (s.polling mode capacity d answered waiting left answer).target .scanning status =
      s.state := by
    rcases hstatus with rfl | rfl | rfl
    · exact hstate.symm
    · rfl
    · rfl
  simp only [Scene.settled, htarget, hstate, if_true, Operation.scanMode, Option.none_or,
    ite_self]
  simp only [polling, polled, hstate, hflight]
  rfl

theorem begins (h : s.InScan mode) (hissues : s.chip.Issues .pollStatus d answer)
    (timing : Timing) :
    s.Delivers timing (s.polling mode timing.maxStations d [] .pollStatus
      [.readFrequency, .readSignal] answer) := by
  obtain ⟨hstate, hmode, hflight, -⟩ := h
  have hroute : route s.state (.pollScan mode) = .accept .scanning := by rw [hstate]; rfl
  have hbegins : s.Begins timing { id := none, operation := .pollScan mode } _ :=
    .issue hroute rfl rfl hissues
  simp only [Scene.reported, Plan.ofCommands, List.filter_nil, Ledger.append_empty] at hbegins
  exact .poll hflight hstate hmode hbegins

theorem ends_stopped (h : s.InScan mode) {verdict : Verdict} {followups : List Operation}
    (hcomplete : waiting.complete answer s.attributes.band = .ok (completed, verdict))
    (hverdict : verdict = .cancel ∧ followups = [] ∨
      verdict = .fail ∧ followups = [.scanDone mode false]) :
    (s.polling mode capacity d answered waiting left answer).Ends
      (s.polled mode verdict.status d s.attributes) followups := by
  have hstatus : verdict.status = .done ∨ verdict.status = .cancel ∨ verdict.status = .fail := by
    rcases hverdict with ⟨rfl, -⟩ | ⟨rfl, -⟩
    · exact .inr (.inl rfl)
    · exact .inr (.inr rfl)
  have hstopped : verdict ≠ .success := by
    rcases hverdict with ⟨rfl, -⟩ | ⟨rfl, -⟩ <;> decide
  have hhook : (Hook.scanPolled mode capacity).apply verdict.status
      (answered ++ completed :: left) s.attributes = .ok (s.attributes, followups) := by
    rcases hverdict with ⟨rfl, rfl⟩ | ⟨rfl, rfl⟩ <;> rfl
  have hends := Ends.stopped (s := s.polling mode capacity d answered waiting left answer) rfl
    hcomplete hstopped hhook
  rw [← h.settled hstatus s.attributes]
  exact hends

theorem ends_read (h : s.InScan mode)
    (hcomplete : waiting.complete answer s.attributes.band = .ok (completed, .success))
    {b : Attributes} {next : Operation}
    (hpoll : (Readings.ofCommands (answered ++ [completed])).poll mode capacity s.attributes =
      .ok (b, next)) :
    (s.polling mode capacity d answered waiting [] answer).Ends (s.polled mode .done d b)
      [next] := by
  have hhook : (Hook.scanPolled mode capacity).apply .done (answered ++ [completed]) s.attributes =
      .ok (b, [next]) := by
    simp only [Hook.apply, hpoll, bind, Except.bind]
  have hends := Ends.finished (s := s.polling mode capacity d answered waiting [] answer) rfl
    hcomplete rfl hhook
  rw [← h.settled (.inl rfl) b]
  exact hends

theorem advances (hcomplete : waiting.complete answer s.attributes.band = .ok (completed, .success))
    {e : Chip} {next : Command} {later : Callback} (hissues : d.Issues next e later) :
    (s.polling mode capacity d answered waiting (next :: left) answer).Delivers timing
      (s.polling mode capacity e (answered ++ [completed]) next left later) :=
  .advance (s := s.polling mode capacity d answered waiting (next :: left) answer) rfl hcomplete rfl
    hissues

theorem course_busy (h : s.InScan mode) (hbusy : 0 < s.chip.busyReads) (timing : Timing) :
    Course timing Scanning 2 s
      (s.polled mode .cancel { s.chip with busyReads := s.chip.busyReads - 1 } s.attributes) := by
  obtain ⟨answer, hissues, hcomplete⟩ := Chip.answers_busy h.powered s.attributes.band hbusy
  exact .head h.state (h.begins hissues timing)
    (.single h.state (.rest (h.ends_stopped hcomplete (.inl ⟨rfl, rfl⟩))))

/-- The polls go on until the search is over. -/
theorem course_idle (h : s.InScan mode) (timing : Timing) :
    Course timing Scanning (2 * s.chip.busyReads) s (s.waited mode) := by
  induction hbusy : s.chip.busyReads generalizing s with
  | zero =>
      have hsame : s.waited mode = s := by
        simp only [Scene.waited, hbusy, List.replicate_zero, Ledger.append_empty]
        rw [← hbusy]
      rw [hsame]
      exact .refl _ _
  | succ n ih =>
      have hfirst := h.course_busy (by omega) timing
      let d : Chip := { s.chip with busyReads := s.chip.busyReads - 1 }
      have hless : d.busyReads = n := by simp [d, hbusy]
      have hlater := ih (s := s.polled mode .cancel d s.attributes)
        ⟨h.state, h.scanMode, h.flight, h.powered⟩ hless
      have hsame : (s.polled mode .cancel d s.attributes).waited mode = s.waited mode := by
        simp only [Scene.waited, polled, hless, hbusy, List.replicate_succ, Ledger.append_assoc]
        rfl
      rw [hsame] at hlater
      rw [Nat.mul_succ, Nat.add_comm]
      exact hfirst.trans hlater

/-- Whatever a scan comes to after its search, it comes to after the polls that it takes. -/
theorem course_after (h : s.InScan mode) {polls n : Nat} (hbusy : s.chip.busyReads ≤ polls)
    {v : Scene} (hcourse : Course timing Scanning n (s.waited mode) v) :
    Course timing Scanning (2 * polls + n) s v :=
  ((h.course_idle timing).trans hcourse).le
    (Nat.add_le_add_right (Nat.mul_le_mul_left 2 hbusy) n)

/-- With no channel to read, a poll fails and the scan is brought to its end. -/
theorem course_failed (h : s.InScan mode) (hdone : s.chip.busyReads = 0)
    (hyields : s.chip.Yields s.attributes.band none) {v : Scene}
    (hbegins : (s.polled mode .fail s.chip s.attributes).Begins timing
      { id := none, operation := .scanDone mode false } v) :
    Course timing Scanning 3 s v := by
  cases hyields with
  | missed hflags =>
      obtain ⟨answer, hissues, hcomplete⟩ :=
        Chip.answers_failed h.powered s.attributes.band hdone hflags
      exact .head h.state (h.begins hissues timing)
        ((Course.single h.state
          (.follow (h.ends_stopped hcomplete (.inr ⟨rfl, rfl⟩)) hbegins)).le (by decide))
  | strayed hflags htuned hsnap =>
      obtain ⟨first, hfirst, hstatus⟩ :=
        Chip.answers_found h.powered s.attributes.band hdone hflags
      obtain ⟨second, hsecond, hfrequency⟩ :=
        Chip.answers_strayed h.powered s.attributes.band htuned hsnap
      exact .head h.state (h.begins hfirst timing) (.head h.state (advances hstatus hsecond)
        (.single h.state (.follow (h.ends_stopped hfrequency (.inr ⟨rfl, rfl⟩)) hbegins)))

/-- After a search that has found a station, a poll reads it and the next step follows. -/
theorem course_found (h : s.InScan mode) (hdone : s.chip.busyReads = 0) {f : Freq}
    (hyields : s.chip.Yields s.attributes.band (some f)) {b : Attributes} {next : Operation}
    (hpoll : (s.chip.readings f).poll mode timing.maxStations s.attributes = .ok (b, next))
    {v : Scene}
    (hbegins : (s.polled mode .done s.chip b).Begins timing { id := none, operation := next } v) :
    Course timing Scanning 4 s v := by
  cases hyields with
  | found hflags htuned hsnap =>
  obtain ⟨first, hfirst, hstatus⟩ := Chip.answers_found h.powered s.attributes.band hdone hflags
  obtain ⟨second, hsecond, hfrequency⟩ :=
    Chip.answers_frequency h.powered s.attributes.band htuned hsnap
  obtain ⟨third, hthird, hsignal⟩ := Chip.answers_signal h.powered s.attributes.band
  -- The status, the frequency and the signal are read one after another; the last answer ends the
  -- poll and begins what follows it in the same turn.
  refine .head h.state (h.begins hfirst timing) (.head h.state (advances hstatus hsecond)
    (.head h.state (advances hfrequency hthird)
      (.single h.state (.follow (h.ends_read hsignal ?_) hbegins))))
  exact hpoll

end InScan

end Scene

end FmTuner
