import FmTuner.Proofs.Checks
import FmTuner.Proofs.Grants
import FmTuner.Proofs.Rounds

/-!
# Errands succeed

An errand is run in a session with a service that has just come up. Each operation that is asked for
is granted, so its request is answered in a time that depends on the budgets alone; and the scan, if
there is one, is waited for until its end.
-/

namespace FmTuner

namespace Service

variable {timing : Timing} {settings : ChipSettings} {Q R : Scene → Prop} {s : Service}
  {horizon polls : Nat}

/-- A service between two events at a scene with a property. -/
def Attains (timing : Timing) (settings : ChipSettings) (Q : Scene → Prop) (horizon polls : Nat)
    (s : Service) : Prop :=
  ∃ scene, s.At timing settings scene horizon polls ∧ Q scene

theorem Attains.mono (h : s.Attains timing settings Q horizon polls) (hQ : ∀ v, Q v → R v)
    {later more : Nat} (htime : horizon ≤ later) (hpolls : polls ≤ more) :
    s.Attains timing settings R later more := by
  obtain ⟨scene, hat, hscene⟩ := h
  exact ⟨scene, hat.mono htime hpolls, hQ scene hscene⟩

theorem Attains.now_le (h : s.Attains timing settings Q horizon polls) : s.now ≤ horizon := by
  obtain ⟨scene, hat, -⟩ := h
  exact hat.within.now

theorem handle_now (s : Service) (event : Event) : (s.handle event).now = s.now := by
  rw [handle]
  split
  · rfl
  · exact (foldl_keeps perform_keeps _ _).now.trans (foldl_keeps carry_keeps _ _).now

end Service

/-! ## Coming up -/

/-- A radio that was never started, on a chip that was never switched on. -/
def Scene.fresh (settings : ChipSettings) (state : RadioState) : Scene where
  state
  scanMode := none
  attributes := {}
  chip := .ofSettings settings
  ledger := {}
  flight := none

namespace Service

variable {timing : Timing} {settings : ChipSettings} {scene u : Scene} {s : Service}
  {horizon polls : Nat}

theorem poised_onTuner (timing : Timing) (settings : ChipSettings) :
    (onTuner timing (.ofSettings settings)).Poised timing settings (Scene.fresh settings .invalid)
      [] [] := by
  refine ⟨⟨rfl, rfl, ⟨⟨_, .start⟩, rfl, ⟨rfl, rfl, rfl, rfl, rfl⟩, rfl, rfl, rfl⟩,
    List.Pairwise.nil, rfl, fun _ ↦ rfl⟩, rfl, rfl, ?_⟩
  rintro f ⟨⟩

theorem comes_up (timing : Timing) (settings : ChipSettings) :
    ((onTuner timing (.ofSettings settings)).handle .ready).At timing settings
      (Scene.fresh settings .idle) timing.longest 2 := by
  have hpoised := poised_onTuner timing settings
  have htakes : ((Scene.fresh settings .invalid).circuit
      (onTuner timing (.ofSettings settings)).receiver).TakesTo timing settings [] .ready
        (Scene.fresh settings .idle) := by
    have hoffers : (Circuit.start timing settings).Offers .ready := trivial
    refine ⟨_, _, rfl, ⟨⟨_, Circuit.Reaches.start.step hoffers rfl⟩, rfl,
      ⟨rfl, rfl, rfl, rfl, rfl⟩, rfl, rfl, rfl⟩, rfl, ?_, ?_⟩
    · rintro f ⟨⟩
    · rintro - ⟨⟩
  have hsteps : (Scene.fresh settings .invalid).Steps timing settings.latency []
      (Scene.fresh settings .idle) := by
    refine ⟨⟨[], rfl, rfl⟩, Nat.zero_le _, ?_, ?_⟩
    · rintro g ⟨⟩
    · rintro g ⟨⟩
  have hwithin : (onTuner timing (.ofSettings settings)).Within 0 :=
    ⟨le_rfl, List.forall_mem_nil _, List.forall_mem_nil _⟩
  simpa using hpoised.handle rfl htakes hsteps hwithin (Nat.le_refl 0)

theorem launch_builtin {startup : Startup} {o : Options} {c : Config}
    (h : startup.Fits o c Backend.builtin) :
    launch Backend.builtin (startup.serviceSettings c) =
      (onTuner c.timing (.ofSettings c.chip)).handle .ready := by
  have hfind := Backend.find?_builtin h.registered
  rw [launch, Registry.resolve, Startup.serviceSettings, hfind]
  rfl

/-- A request that begins at a scene at rest takes the service to what it begins. -/
theorem At.post (h : s.At timing settings scene horizon polls)
    (hcovers : timing.Covers settings.latency) (hflight : scene.flight = none) {id : RequestId}
    {operation : Operation} (hreset : operation ≠ .reset)
    (hbegins : scene.Begins timing { id := some id, operation } u) :
    (s.post { id := some id, operation }).At timing settings u (horizon + timing.longest)
        (polls + 2) ∧
      (s.post { id := some id, operation }).now = s.now := by
  obtain ⟨⟨history, h⟩, hwithin, hfew⟩ := h
  let v : Service := { s with waiting := id :: s.waiting }
  have hwaiting : v.waiting = [id] := by
    rw [show v.waiting = id :: s.waiting from rfl, h.waiting, Scene.asked_of_none hflight]
  have hpoised : v.Poised timing settings scene history [id] := by
    refine ⟨⟨h.ended, h.latency, h.shown, h.ordered, h.answered, h.untimed⟩, hwaiting,
      h.quiet hflight, ?_⟩
    simp [hflight]
  obtain ⟨hreports, hendings, hnew, htime⟩ := hbegins.steps hcovers hreset
  have hsteps : scene.Steps timing settings.latency [id] u :=
    ⟨hreports, by omega, fun g hg ↦ .inl (hnew g hg), htime⟩
  have hleft : (scene.circuit v.receiver).left (.request { id := some id, operation }) = [] := by
    simp [Scene.circuit, Circuit.left, hflight]
  have hv : v.Within horizon := ⟨hwithin.now, hwithin.arrivals, hwithin.polls⟩
  exact ⟨hpoised.handle hleft (h.shown.asks hflight hbegins) hsteps hv hfew, handle_now v _⟩

end Service

namespace Session

variable {timing : Timing} {settings : ChipSettings} {Q : Scene → Prop} {s : Session} {n : Nat}
  {operation : Operation} {horizon polls : Nat}

open Service in
/-- An operation that is granted is done when its request is answered. -/
theorem request_of_grants (hcovers : timing.Covers settings.latency)
    (h : s.service.Attains timing settings (Scene.Grants timing n operation · Q) horizon polls)
    {ms : Nat} (htime : horizon + (n + 1) * timing.longest < s.service.now + ms)
    (hfuel : 3 * n + (polls + 2) ≤ stamina) :
    ∃ t, s.request operation ms = (t, .ok (.outcome .done)) ∧
      t.service.Attains timing settings Q (horizon + (n + 1) * timing.longest)
        (polls + 2 * (n + 1)) := by
  obtain ⟨scene, hat, hflight, hreset, hgrants⟩ := h
  obtain ⟨u, v, hbegins, hcourse, hrests, hreports, hv⟩ := hgrants s.nextId
  obtain ⟨hposted, hnow⟩ := hat.post hcovers hflight hreset hbegins
  let r : Session :=
    { s with
      service := s.service.post { id := some s.nextId, operation }
      nextId := s.nextId + 1 }
  let goal : Service → Bool := fun service ↦ !service.awaits s.nextId
  have hgoal : Awaits timing settings (Scene.Carries scene.state { id := some s.nextId, operation })
      v goal := by
    constructor
    · rintro x y later hx ⟨-, f, hf, hrequest⟩
      have hwaiting := hx.waiting
      rw [Scene.asked, hf] at hwaiting
      simp [goal, awaits, hwaiting, hrequest]
    · intro x later hx
      have hwaiting := hx.waiting
      rw [Scene.asked_of_none hrests] at hwaiting
      simp [goal, awaits, hwaiting]
  rw [Nat.succ_mul] at htime ⊢
  have hintime : horizon + timing.longest + n * timing.longest < r.service.now + ms := by
    rw [show r.service.now = s.service.now from hnow]
    omega
  have hfinal := hposted.wait hcourse hcovers hrests hgoal hintime (by omega)
  let t : Session := { r with service := r.service.wait goal ms }
  have hsend : s.send? operation = some (r, s.nextId) := by
    obtain ⟨history, hstages⟩ := hat.stages
    rw [send?, if_pos (by simp [isOpen, hstages.ended])]
  have hawait : r.await s.nextId ms = (t, .outcome .done) := by
    obtain ⟨history, hstages⟩ := hfinal.stages
    have hanswered : t.service.answered = _ := hstages.answered
    rw [hreports, List.reverse_append] at hanswered
    have hreply : t.reply s.nextId = .outcome .done := by simp [reply, outcome?, hanswered]
    rw [await, ← hreply]
  refine ⟨t, ?_, v, hfinal.mono (by omega) (by omega), hv⟩
  simp only [request, hsend, hawait]

open Service in
theorem requestAll_of_grantsAll (hcovers : timing.Covers settings.latency) (deadline : Nat)
    {operations : List Operation}
    (h : s.service.Attains timing settings (Scene.GrantsAll timing n operations · Q) horizon polls)
    (htime : horizon + operations.length * ((n + 1) * timing.longest) < deadline)
    (hfuel : 3 * n + 2 + (polls + operations.length * (2 * (n + 1))) ≤ stamina) :
    ∃ t, s.requestAll deadline operations = (t, .ok) ∧
      t.service.Attains timing settings Q
        (horizon + operations.length * ((n + 1) * timing.longest))
        (polls + operations.length * (2 * (n + 1))) := by
  induction operations generalizing s horizon polls with
  | nil =>
      exact ⟨s, rfl, h.mono (fun _ hv ↦ hv) (Nat.le_add_right _ _) (Nat.le_add_right _ _)⟩
  | cons operation rest ih =>
      rw [List.length_cons] at htime hfuel ⊢
      rw [Nat.succ_mul _ ((n + 1) * timing.longest)] at htime ⊢
      rw [Nat.succ_mul _ (2 * (n + 1))] at hfuel ⊢
      have hnow := h.now_le
      obtain ⟨t, hrequest, ht⟩ :=
        request_of_grants hcovers h (by omega : _ < s.service.now + (deadline - s.service.now))
          (by omega)
      obtain ⟨final, hall, hfinal⟩ := ih ht (by omega) (by omega)
      refine ⟨final, ?_, hfinal.mono (fun _ hv ↦ hv) (by omega) (by omega)⟩
      simpa [requestAll, hrequest, Outcome.check, Outcome.isSuccess] using hall

open Service in
/-- The wait for a scan that has begun is over when the scan is. -/
theorem waitFor_of_scans (hcovers : timing.Covers settings.latency) {a : Attributes}
    (h : s.service.Attains timing settings (Scene.Scans timing n · a) horizon polls) {ms : Nat}
    (htime : horizon + n * timing.longest < s.service.now + ms)
    (hfuel : 3 * n + polls ≤ stamina) :
    ∃ t, s.waitFor (fun p ↦ p.state ≠ .scanning) ms = (t, some true) ∧
      t.service.Attains timing settings
        (fun v ↦ v.state = .started ∧ v.scanMode = none ∧ v.flight = none ∧ a.Retains v.attributes)
        (horizon + n * timing.longest) (polls + 2 * n) := by
  obtain ⟨scene, hat, -, v, hend, hmode, hrests, hkept, hcourse⟩ := h
  let goal : Service → Bool := fun service ↦
    decide (service.published.state ≠ .scanning) || service.ended.isSome
  have hpublished : ∀ {y : Scene} {x : Service} {later : Journal},
      Stages timing settings y later x → x.published.state = y.state := by
    intro y x later hx
    rw [hx.published]
    exact hx.shown.radio.state
  have hgoal : Awaits timing settings Scene.Scanning v goal := by
    constructor
    · intro x y later hx hy
      have hscanning := (hpublished hx).trans hy
      simp [goal, hscanning, hx.ended]
    · intro x later hx
      have hstarted := (hpublished hx).trans hend
      simp [goal, hstarted]
  have hfinal := hat.wait hcourse hcovers hrests hgoal htime hfuel
  let t : Session := { s with service := s.service.wait goal ms }
  have hopen : s.isOpen = true := by
    obtain ⟨history, hstages⟩ := hat.stages
    simp [isOpen, hstages.ended]
  have hdone : t.snapshot.state = .started := by
    obtain ⟨history, hstages⟩ := hfinal.stages
    exact (hpublished hstages).trans hend
  refine ⟨t, ?_, v, hfinal, hend, hmode, hrests, hkept⟩
  have hwait : s.waitFor (fun p ↦ p.state ≠ .scanning) ms =
      if decide (t.snapshot.state ≠ .scanning) = true then (t, some true)
      else (t, if t.isOpen then some false else none) := by
    rw [waitFor, hopen]
    rfl
  rw [hwait, hdone]
  rfl

end Session

/-! ## Errands -/

/-- The radio of a service is on as options ask for it on a band, and nothing is left to be done. -/
structure Service.Served (o : Options) (band : Band) (s : Service) : Prop where
  ended : s.ended = none
  waiting : s.waiting = []
  published : s.published = s.receiver.radio.snapshot
  state : s.receiver.radio.state = .started
  pending : s.receiver.radio.pending = none
  queue : s.receiver.radio.queue = []
  scanMode : s.receiver.radio.scanMode = none
  onBand : s.receiver.radio.attributes.band = band
  threshold : s.receiver.radio.attributes.threshold = o.threshold.getD 500
  forceMono : s.receiver.radio.attributes.forceMono = o.mono
  frequency : o.scan = none → s.receiver.radio.attributes.frequency = o.tune.map Freq.mk
  known : o.tune.isSome = true → s.receiver.radio.attributes.frequency.isSome = true
  onGrid : ∀ f, s.receiver.radio.attributes.frequency = some f → band.isValid f = true

/-- What options ask for on a band, as a scene shows it. -/
structure Scene.Serves (o : Options) (band : Band) (s : Scene) : Prop where
  state : s.state = .started
  scanMode : s.scanMode = none
  flight : s.flight = none
  retains : (o.attributes band).Retains s.attributes
  frequency : o.scan = none → s.attributes.frequency = o.tune.map Freq.mk

theorem Service.Attains.served {timing : Timing} {settings : ChipSettings} {o : Options}
    {band : Band} {s : Service} {horizon polls : Nat}
    (h : s.Attains timing settings (Scene.Serves o band) horizon polls) : s.Served o band := by
  obtain ⟨scene, ⟨⟨history, hstages⟩, -, -⟩, hserves⟩ := h
  obtain ⟨events, hreached⟩ := hstages.shown.reached
  have hradio : s.receiver.radio.Shows timing scene := hstages.shown.radio
  have hgrid : s.receiver.radio.attributes.OnGrid := hreached.onGrid
  have hattributes := hradio.attributes
  have hband := hserves.retains.band
  constructor
  · exact hstages.ended
  · exact hstages.waiting.trans (Scene.asked_of_none hserves.flight)
  · exact hstages.published
  · exact hradio.state.trans hserves.state
  · exact hradio.pending_none hserves.flight
  · exact hstages.shown.queue
  · exact hradio.scanMode.trans hserves.scanMode
  · rw [hattributes, hband]
    rfl
  · rw [hattributes, hserves.retains.threshold]
    rfl
  · rw [hattributes, hserves.retains.forceMono]
    rfl
  · rw [hattributes]
    exact hserves.frequency
  · rw [hattributes]
    intro htune
    exact hserves.retains.known (by simpa [Options.attributes] using htune)
  · intro f hf
    have hvalid := hgrid f hf
    rwa [hattributes, hband] at hvalid

theorem Options.length_operations_le (o : Options) (band : Band) :
    (o.operations band).length ≤ 5 := by
  have hone : ∀ {α : Type} (x : Option α), x.toList.length ≤ 1 := fun x ↦ by cases x <;> simp
  have hthreshold := hone o.threshold
  have hmono : (if o.mono then [Operation.setForceMono true] else []).length ≤ 1 := by
    split <;> simp
  have htune := hone o.tune
  have hscan := hone o.scan
  simp only [operations, List.length_append, List.length_map, List.length_singleton]
  omega

theorem Scene.scanDeliveries_le {timing : Timing} {polls : Nat} (hlimit : timing.maxStations ≤ 206)
    (hpolls : polls < UInt32.size) :
    3 * scanDeliveries timing polls + 100 ≤ Service.stamina := by
  have hmany := Nat.mul_le_mul_right (2 * polls + 7) hlimit
  have hsize : UInt32.size = 4294967296 := rfl
  have hstamina : Service.stamina = 4611686018427387904 := rfl
  rw [scanDeliveries]
  omega

theorem Scene.Idles.serves {o : Options} {band : Band} {polls : Nat} {s : Scene}
    (h : s.Idles polls (o.attributes band)) : s.Serves o band := by
  refine ⟨h.state, h.scanMode, h.flight, ?_, fun _ ↦ ?_⟩
  · rw [h.attributes]
    exact .refl _
  · rw [h.attributes]
    rfl

namespace Session

variable {timing : Timing} {settings : ChipSettings} {s : Session} {o : Options} {band : Band}

theorem runErrand_of_grantsAll (hcovers : timing.Covers settings.latency) {horizon polls : Nat}
    (h : s.service.Attains timing settings
      (Scene.GrantsAll timing 5 (o.operations band) ·
        (Scene.Granted timing polls o.scan (o.attributes band))) horizon 2)
    {ms : Nat}
    (htime : horizon + 30 * timing.longest + Scene.scanDeliveries timing polls * timing.longest <
      s.service.now + ms)
    (hfuel : 3 * Scene.scanDeliveries timing polls + 100 ≤ Service.stamina) :
    ∃ t, s.runErrand o band ms = (t, .ok) ∧ t.service.Served o band := by
  have hlength := o.length_operations_le band
  have hspan : (o.operations band).length * ((5 + 1) * timing.longest) ≤ 30 * timing.longest := by
    rw [← Nat.mul_assoc]
    exact Nat.mul_le_mul_right _ (Nat.mul_le_mul_right 6 hlength)
  obtain ⟨t, hall, ht⟩ := requestAll_of_grantsAll hcovers (s.service.now + ms) h (by omega)
    (by omega)
  have hgranted := ht.mono (fun _ hv ↦ hv) (Nat.add_le_add_left hspan horizon)
    (show _ ≤ 62 by omega)
  cases hscan : o.scan with
  | none =>
      refine ⟨t, ?_, (hgranted.mono (fun _ hv ↦ (hv.1 hscan).serves) le_rfl le_rfl).served⟩
      simp only [runErrand, hall, hscan]
      rfl
  | some mode =>
      have hne : o.scan ≠ none := by simp [hscan]
      have hnow := hgranted.now_le
      obtain ⟨u, hwait, hu⟩ := waitFor_of_scans hcovers
        (hgranted.mono (fun _ hv ↦ hv.2 hne) le_rfl le_rfl)
        (show _ < t.service.now + (s.service.now + ms - t.service.now) by omega) (by omega)
      refine ⟨u, ?_, (hu.mono (fun v hv ↦ ?_) le_rfl le_rfl).served⟩
      · simp only [runErrand, hall, hscan, hwait]
        rfl
      · obtain ⟨hstate, hmode, hflight, hkept⟩ := hv
        exact ⟨hstate, hmode, hflight, hkept, fun hnone ↦ absurd hnone hne⟩

end Session

/-- The time within which an errand is over on a chip whose searches take a number of polls. -/
def Timing.errand (timing : Timing) (polls : Nat) : Nat :=
  (31 + Scene.scanDeliveries timing polls) * timing.longest

/-- Every errand that was accepted succeeds, if the chip answers so early that its commands are
through within their budgets. Configurations count the polls of a search in 32 bits. -/
theorem Session.accepted_errand_succeeds {o : Options} {c : Config} {startup : Startup}
    (hvalid : c.validate = .ok ())
    (hresolve : Startup.resolve o c Backend.builtin = .ok startup)
    (hstart : 4 * c.chip.latency + c.timing.settleDelay < c.timing.startTimeout)
    (hproperty : 3 * c.chip.latency < c.timing.propertyTimeout)
    (hpolls : c.chip.searchPolls < UInt32.size) :
    ∀ ms, c.timing.errand c.chip.searchPolls < ms →
      ∃ t, runErrand { service := .launch Backend.builtin (startup.serviceSettings c) } o
          startup.band ms = (t, .ok) ∧ t.service.Served o startup.band := by
  intro ms hms
  obtain ⟨band, hconfig⟩ := Config.validate_eq_ok.mp hvalid
  have hfits := Startup.resolve_eq_ok.mp hresolve
  rw [Service.launch_builtin hfits]
  have hup := Service.comes_up c.timing c.chip
  have hgrants : Scene.GrantsAll c.timing 5 (o.operations startup.band) (.fresh c.chip .idle)
      (Scene.Granted c.timing c.chip.searchPolls o.scan (o.attributes startup.band)) :=
    o.grantsAll_operations rfl rfl rfl (Band.ofName_mem_presets hfits.band) hfits.tune
      (Nat.pos_of_ne_zero hconfig.timing.maxStations)
  refine runErrand_of_grantsAll ⟨hstart, hproperty⟩ ⟨_, hup, hgrants⟩ ?_
    (Scene.scanDeliveries_le hconfig.maxStations_le hpolls)
  rw [Timing.errand, Nat.add_mul, Nat.succ_mul] at hms
  omega

/-- Everything that can be asked for at once. -/
def Options.sample : Options where
  band := some "EU"
  tune := some 94000
  scan := some .full
  threshold := some 300
  mono := true

theorem Session.sample_errand_succeeds :
    ∃ t, runErrand
        { service := .launch Backend.builtin (Startup.serviceSettings ⟨"sim", .europeUs⟩ {}) }
        .sample .europeUs 8000000 = (t, .ok) ∧ t.service.Served .sample .europeUs := by
  have hvalid : ({} : Config).validate = .ok () := by decide +kernel
  have hresolve : Startup.resolve .sample {} Backend.builtin = .ok ⟨"sim", .europeUs⟩ := by
    decide +kernel
  exact accepted_errand_succeeds hvalid hresolve (by decide) (by decide) (by decide) 8000000
    (by decide)

end FmTuner
