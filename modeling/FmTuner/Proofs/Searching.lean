import FmTuner.Proofs.Channels
import FmTuner.Proofs.Mirror
import FmTuner.Proofs.Scenes

/-!
# Searching

What the commands that tune, search and poll do to a chip that is on, and how it answers them. A
search stops on the first station that it meets, and a poll reads off what the search has come to.
-/

namespace FmTuner

/-! ## Values of registers -/

/-- Read as one byte, the level of a signal is that byte. -/
theorem Bytes.take_ofWord (byte : UInt8) : (ofWord byte.toUInt16).take 1 = [byte] := by
  have hbyte : UInt8.ofNat (byte.toUInt16.toNat % 256) = byte := by
    apply UInt8.toNat_inj.mp
    have hlt : byte.toNat < 256 := byte.toNat_lt
    simp only [UInt8.toNat_toUInt16, UInt8.toNat_ofNat']
    omega
  rw [ofWord, List.take_succ_cons, List.take_zero, hbyte]

namespace Freq

/-- The register can express a frequency. -/
def InRegister (f : Freq) : Prop := 64000 ≤ f.khz ∧ f.khz ≤ 129535

theorem ofRegister_toRegister {f : Freq} (h : f.InRegister) : ofRegister f.toRegister = f := by
  obtain ⟨hmin, hmax⟩ := h
  have hword : f.toRegister.toNat = f.khz - 64000 := by
    simp only [toRegister, registerBase, UInt16.toNat_ofNat']
    omega
  simp only [ofRegister, registerBase, hword, Nat.sub_add_cancel hmin]

end Freq

namespace Register

/-- A search control value tells the direction and the level apart. -/
theorem searchControl_fields (up : Bool) (threshold : Nat) :
    ((searchControlValue up threshold).toUInt16 &&& upBit.toUInt16 ≠ 0 ↔ up = true) ∧
      ((searchControlValue up threshold).toUInt16 &&& levelMask.toUInt16).toUInt8 =
        searchLevel threshold := by
  have hbits : ∀ level : Fin 111, ∀ up : Bool,
      let value := (if up then upBit else 0) ||| (UInt8.ofNat level &&& levelMask)
      (value.toUInt16 &&& upBit.toUInt16 ≠ 0 ↔ up = true) ∧
        (value.toUInt16 &&& levelMask.toUInt16).toUInt8 = UInt8.ofNat level := by
    decide +kernel
  exact hbits ⟨110 - threshold / 10, by omega⟩ up

end Register

namespace Chip

variable {c d : Chip} {command : Command}

/-! ## Exchanges -/

theorem issues_write (hpowered : c.powered = true) {register : UInt8} {value : List UInt8}
    {word : UInt16} (hvalue : valueOf? value = some word) (hwrite : c.write register word = some d) :
    c.Issues (.write register value) d
      (.vendor Register.confirmOpcode [0, register, Register.writeAccess]) := by
  change c.command Register.accessOpcode (register :: Register.writeAccess :: value) = _
  simp [command_of_write hpowered, hvalue, hwrite]

theorem issues_read (hpowered : c.powered = true) {register length : UInt8} {word : UInt16}
    (kind : ReadKind) (reading : Option Reading) (hlength : length.toNat = kind.length)
    (hread : c.read register = some (d, word)) :
    c.Issues (.read register length kind reading) d
      (.vendor Register.confirmOpcode
        ([0, register, Register.readAccess] ++ (Bytes.ofWord word).take length.toNat)) := by
  have hbounds : 1 ≤ length ∧ length ≤ 2 := by
    simp only [UInt8.le_iff_toNat_le, hlength]
    cases kind <;> decide
  change c.command Register.accessOpcode [register, Register.readAccess, length] = _
  simp [Chip.command, hpowered, hread, hbounds, Register.readAccess, Register.writeAccess]

/-- Commands that a chip takes and confirms, one after another. -/
inductive Obeys : Chip → List Command → Chip → Prop where
  | nil (c : Chip) : Obeys c [] c
  | cons {c d e : Chip} {command : Command} {rest : List Command} {answer : Callback}
      (hissues : c.Issues command d answer)
      (hcomplete : ∀ band, command.complete answer band = .ok (command, .success))
      (hrest : Obeys d rest e) : Obeys c (command :: rest) e

theorem Obeys.write {e : Chip} (hpowered : c.powered = true) {register : UInt8}
    {value : List UInt8} {word : UInt16} {rest : List Command} (hvalue : valueOf? value = some word)
    (hwrite : c.write register word = some d) (hrest : d.Obeys rest e) :
    c.Obeys (.write register value :: rest) e :=
  .cons (issues_write hpowered hvalue hwrite) (fun _ ↦ by simp [Command.complete]) hrest

theorem Obeys.writeByte {e : Chip} (hpowered : c.powered = true) {register value : UInt8}
    {rest : List Command} (hwrite : c.write register value.toUInt16 = some d)
    (hrest : d.Obeys rest e) : c.Obeys (Command.writeByte register value :: rest) e :=
  .write hpowered (valueOf?_byte value) hwrite hrest

theorem Obeys.writeFrequency {e : Chip} (hpowered : c.powered = true) {f : Freq}
    {rest : List Command} (hwrite : c.write Register.frequency f.toRegister = some d)
    (hrest : d.Obeys rest e) : c.Obeys (Command.writeFrequency f :: rest) e := by
  refine .write hpowered ?_ hwrite hrest
  rw [Bytes.ofWord, valueOf?, Bytes.toWord_ofWord]

end Chip

theorem Command.complete_read {register length : UInt8} {kind : ReadKind} {word : UInt16}
    {band : Band} {verdict : Verdict} {found : Option Reading} (reading : Option Reading)
    (hlength : length.toNat = kind.length)
    (hdecode : kind.decode ((Bytes.ofWord word).take kind.length) band = .ok (verdict, found)) :
    (read register length kind reading).complete
        (.vendor Register.confirmOpcode
          ([0, register, Register.readAccess] ++ (Bytes.ofWord word).take length.toNat)) band =
      .ok (.read register length kind found, verdict) := by
  rw [complete_answered (answersRead_answer hlength word)]
  rw [← hlength] at hdecode
  exact congrArg (Except.map _) hdecode

namespace ReadKind

variable {band : Band}

theorem decode_frequency {f : Freq} (hf : f.InRegister) {found : Option Freq}
    (hsnap : band.snap f = .ok found) :
    frequency.decode ((Bytes.ofWord f.toRegister).take 2) band =
      .ok (found.elim (.fail, none) fun g ↦ (.success, some (.frequency g))) := by
  simp only [decode, Bytes.ofWord, List.take_succ_cons, List.take_zero, entryAt_zero, entryAt_one,
    bind, Except.bind, Bytes.toWord_ofWord, Freq.ofRegister_toRegister hf, hsnap]
  cases found <;> rfl

theorem decode_signal (level : UInt8) :
    signal.decode ((Bytes.ofWord level.toUInt16).take 1) band =
      .ok (.success, some (.signal level)) := by
  rw [Bytes.take_ofWord]
  rfl

theorem decode_scanStatus (flags : UInt16) :
    scanStatus.decode ((Bytes.ofWord flags).take 2) band =
      if flags &&& Register.finishedFlag = 0 then .ok (.cancel, none)
      else if flags &&& Register.failedFlag ≠ 0 then .ok (.fail, none)
      else .ok (.success, some (.scanStatus (flags &&& Register.stereoFlag ≠ 0))) := by
  simp only [decode, Bytes.ofWord, List.take_succ_cons, List.take_zero, entryAt_zero, entryAt_one,
    bind, Except.bind, Bytes.toWord_ofWord]

end ReadKind

/-! ## Tuning and searching -/

namespace Chip

variable {c d : Chip}

/-- What neither tuning nor searching changes. -/
structure Same (c d : Chip) : Prop where
  powered : d.powered = c.powered
  stations : d.stations = c.stations
  searchPolls : d.searchPolls = c.searchPolls
  control : d.register Register.fmControl = c.register Register.fmControl

theorem Same.trans {e : Chip} (h : c.Same d) (hd : d.Same e) : c.Same e :=
  ⟨hd.powered.trans h.powered, hd.stations.trans h.stations, hd.searchPolls.trans h.searchPolls,
    hd.control.trans h.control⟩

theorem Same.band (h : c.Same d) : d.band = c.band := by
  rw [Chip.band, Chip.band, h.control]

theorem same_put (c : Chip) (register : UInt8) (h : register.toNat < 32) (word : UInt16)
    (hne : Register.fmControl ≠ register) : c.Same (c.put register h word) :=
  ⟨rfl, rfl, rfl, by rw [register_put, if_neg hne]⟩

theorem write_plain {register : UInt8} (h : register.toNat < 32) (word : UInt16)
    (hfrequency : register ≠ Register.frequency) (hmode : register ≠ Register.searchTuneMode) :
    c.write register word = some (c.put register h word) := by
  rw [write, dif_pos h, if_neg hfrequency, if_neg hmode]
  rfl

theorem write_frequency (c : Chip) {f : Freq} (hf : f.InRegister) :
    ∃ d, c.write Register.frequency f.toRegister = some d ∧ c.Same d ∧
      d.frequencyWritten = true ∧ Freq.ofRegister (d.register Register.frequency) = f ∧
        ∀ other, other ≠ Register.frequency → d.register other = c.register other := by
  have hput := @register_put c Register.frequency (by decide) f.toRegister
  refine ⟨{ c.put Register.frequency (by decide) f.toRegister with frequencyWritten := true }, rfl,
    (same_put c Register.frequency (by decide) _ (by decide)).trans ⟨rfl, rfl, rfl, rfl⟩, rfl,
    ?_, fun other hother ↦ (hput other).trans (if_neg hother)⟩
  exact (congrArg Freq.ofRegister ((hput Register.frequency).trans (if_pos rfl))).trans
    (Freq.ofRegister_toRegister hf)

theorem write_searchTuneMode (c : Chip) (value : UInt16) :
    c.write Register.searchTuneMode value =
      some ((c.put Register.searchTuneMode (by decide) value).searchTune value.toUInt8) := by
  rw [write, dif_pos (by decide), if_neg (by decide), if_pos rfl]
  rfl

theorem write_mode (mode : UInt8) :
    c.write Register.searchTuneMode mode.toUInt16 =
      some ((c.put Register.searchTuneMode (by decide) mode.toUInt16).searchTune mode) := by
  have hbyte : mode.toUInt16.toUInt8 = mode := by simp
  rw [write_searchTuneMode, hbyte]

/-- The mode itself is no part of the search that it starts. -/
theorem search_put_mode (c : Chip) (value : UInt16) :
    (c.put Register.searchTuneMode (by decide) value).search = c.search := by
  let told := c.put Register.searchTuneMode (by decide) value
  have hcontrol : told.register Register.searchControl = c.register Register.searchControl :=
    (register_put ..).trans (if_neg (by decide))
  have hstart : told.register Register.frequency = c.register Register.frequency :=
    (register_put ..).trans (if_neg (by decide))
  have htold : c.Same told := same_put c Register.searchTuneMode _ _ (by decide)
  change told.search = c.search
  rw [search, search, hcontrol, hstart, htold.band]
  rfl

/-- A chip that has searched: it is tuned to what it has found, and will be busy for a while. -/
structure Searched (c : Chip) (q : Search) (d : Chip) : Prop where
  same : c.Same d
  found : ∀ s, q.find? c.stations = some s →
    d.tuned = ⟨s.khz⟩ ∧ d.flags = Register.finishedFlag ||| c.stereoFlagAt ⟨s.khz⟩
  missed : q.find? c.stations = none →
    d.tuned = q.edge ∧ d.flags = Register.finishedFlag ||| Register.failedFlag
  busyReads : d.busyReads = c.searchPolls

theorem searched_autoSearch (c : Chip) : c.Searched c.search c.autoSearch := by
  refine ⟨⟨rfl, rfl, rfl, rfl⟩, fun s hs ↦ ?_, fun hs ↦ ?_, rfl⟩ <;>
    simp only [autoSearch, hs, and_self]

theorem Searched.of_same {e : Chip} {q : Search} (h : c.Same d) (hd : d.Searched q e) :
    c.Searched q e := by
  obtain ⟨hsame, hfound, hmissed, hbusy⟩ := hd
  rw [h.stations] at hfound hmissed
  refine ⟨h.trans hsame, fun s hs ↦ ?_, hmissed, hbusy.trans h.searchPolls⟩
  obtain ⟨htuned, hflags⟩ := hfound s hs
  refine ⟨htuned, ?_⟩
  rw [hflags, stereoFlagAt, stereoFlagAt, stationAt?, stationAt?, h.stations]

/-- Whoever writes the mode for a search, in the low byte, has the chip search as its registers ask. -/
theorem searched_of_write (c : Chip) {value : UInt16} (hvalue : value.toUInt8 = Register.autoSearch) :
    ∃ d, c.write Register.searchTuneMode value = some d ∧ c.Searched c.search d := by
  let asked := c.put Register.searchTuneMode (by decide) value
  have hasked : c.Same asked := same_put c Register.searchTuneMode _ value (by decide)
  have hsearched : c.Searched asked.search asked.autoSearch :=
    .of_same hasked (searched_autoSearch asked)
  rw [search_put_mode] at hsearched
  refine ⟨asked.autoSearch, ?_, hsearched⟩
  rw [write_searchTuneMode, hvalue]
  rfl

/-- The search that the commands for it ask of a chip. -/
def searchFor (c : Chip) (up : Bool) (threshold : Nat) : Search where
  up := up
  level := Register.searchLevel threshold
  start := if c.frequencyWritten then .ofRegister (c.register Register.frequency) else c.tuned
  inclusive := c.frequencyWritten
  band := c.band

theorem obeys_searchCommands (hpowered : c.powered = true) (up : Bool) (threshold : Nat) :
    ∃ d, c.Obeys (Plan.searchCommands up threshold) d ∧
      c.Searched (c.searchFor up threshold) d := by
  -- The second write starts the search, which reads back what the first one has left.
  let value := (Register.searchControlValue up threshold).toUInt16
  let told := c.put Register.searchControl (by decide) value
  have htold : c.Same told := same_put c Register.searchControl _ value (by decide)
  obtain ⟨d, hmode, hsearched⟩ :=
    told.searched_of_write (show Register.autoSearch.toUInt16.toUInt8 = _ from rfl)
  have hsearch : told.search = c.searchFor up threshold := by
    have hcontrol : told.register Register.searchControl = value :=
      (register_put ..).trans (if_pos rfl)
    have hstart : told.register Register.frequency = c.register Register.frequency :=
      (register_put ..).trans (if_neg (by decide))
    obtain ⟨hup, hlevel⟩ := Register.searchControl_fields up threshold
    have htell : decide (value &&& Register.upBit.toUInt16 ≠ 0) = up := by
      cases up <;> simpa using hup
    simp only [search, hcontrol, hstart, htell, htold.band, value, hlevel]
    rfl
  rw [hsearch] at hsearched
  refine ⟨d, ?_, .of_same htold hsearched⟩
  refine .writeByte hpowered (write_plain (by decide) value (by decide) (by decide)) ?_
  exact .writeByte (htold.powered.trans hpowered) hmode (.nil _)

/-- An upward search that begins on a frequency, and counts a station there. -/
def upwards (c : Chip) (threshold : Nat) (f : Freq) : Search where
  up := true
  level := Register.searchLevel threshold
  start := f
  inclusive := true
  band := c.band

theorem obeys_search_from (hpowered : c.powered = true) {f : Freq} (hf : f.InRegister)
    (threshold : Nat) :
    ∃ d, c.Obeys (Command.writeFrequency f :: Plan.searchCommands true threshold) d ∧
      c.Searched (c.upwards threshold f) d := by
  obtain ⟨told, hwrite, htold, hwritten, hstart, -⟩ := c.write_frequency hf
  obtain ⟨d, hobeys, hsearched⟩ :=
    obeys_searchCommands (htold.powered.trans hpowered) true threshold
  refine ⟨d, .writeFrequency hpowered hwrite hobeys, .of_same htold ?_⟩
  simpa only [searchFor, upwards, hwritten, hstart, htold.band, if_true] using hsearched

theorem obeys_tuneCommands (hpowered : c.powered = true) {f : Freq} (hf : f.InRegister) :
    ∃ d, c.Obeys (Plan.tuneCommands f) d ∧ c.Same d ∧ d.tuned = f ∧
      d.frequencyWritten = false := by
  obtain ⟨told, hwrite, htold, -, hstart, -⟩ := c.write_frequency hf
  let asked := told.put Register.searchTuneMode (by decide) Register.preset.toUInt16
  have hasked : told.Same asked := same_put told Register.searchTuneMode _ _ (by decide)
  have htuned : asked.tunePreset.tuned = f := by
    rw [← hstart, tunePreset, register_put, if_neg (by decide)]
  refine ⟨asked.tunePreset, ?_, htold.trans (hasked.trans ⟨rfl, rfl, rfl, rfl⟩), htuned, rfl⟩
  exact .writeFrequency hpowered hwrite
    (.writeByte (htold.powered.trans hpowered) (write_mode Register.preset) (.nil _))

/-! ## What a search has come to -/

theorem Search.stopsOn_iff_ahead {q : Search} {s : Transmitter} :
    q.stopsOn s = true ↔ q.ahead s = true ∧ q.level ≤ s.rssi ∧ q.band.min.khz ≤ s.khz ∧
      s.khz ≤ q.band.max.khz := by
  simp only [Search.stopsOn, Bool.and_eq_true, decide_eq_true_eq, and_assoc]

theorem band_limits (c : Chip) : 64000 ≤ c.band.min.khz ∧ c.band.max.khz ≤ 129535 := by
  rw [band]
  split <;> decide

theorem Searched.inRegister {q : Search} (h : c.Searched q d) (hband : q.band = c.band) :
    d.tuned.InRegister := by
  obtain ⟨hmin, hmax⟩ := c.band_limits
  have hle : c.band.min.khz ≤ c.band.max.khz := by
    rw [band]
    split <;> decide
  rw [← hband] at hmin hmax hle
  cases hfind : q.find? c.stations with
  | some s =>
      obtain ⟨-, -, hlow, hhigh⟩ := Search.stopsOn_iff_ahead.mp (List.find?_some hfind)
      rw [(h.found s hfind).1]
      exact ⟨hmin.trans hlow, hhigh.trans hmax⟩
  | none =>
      rw [(h.missed hfind).1, Search.edge]
      split
      · exact ⟨hmin.trans hle, hmax⟩
      · exact ⟨hmin, hle.trans hmax⟩

/-- What there is to read, in a band, from a chip whose search is over: a channel, or nothing if the
search has missed or has stopped off the channels. -/
inductive Yields (c : Chip) (band : Band) : Option Freq → Prop where
  | missed (hflags : c.flags = Register.finishedFlag ||| Register.failedFlag) : Yields c band none
  | strayed (hflags : c.flags = Register.finishedFlag ||| c.stereoFlagAt c.tuned)
      (htuned : c.tuned.InRegister) (hsnap : band.snap c.tuned = .ok none) : Yields c band none
  | found {f : Freq} (hflags : c.flags = Register.finishedFlag ||| c.stereoFlagAt c.tuned)
      (htuned : c.tuned.InRegister) (hsnap : band.snap c.tuned = .ok (some f)) :
      Yields c band (some f)

theorem Yields.idle {b : Band} {found : Option Freq} (h : c.Yields b found) :
    Yields { c with busyReads := 0 } b found := by
  cases h with
  | missed hflags => exact .missed hflags
  | strayed hflags htuned hsnap => exact .strayed hflags htuned hsnap
  | found hflags htuned hsnap => exact .found hflags htuned hsnap

theorem Searched.flags_of_found {q : Search} (h : c.Searched q d) {s : Transmitter}
    (hs : q.find? c.stations = some s) :
    d.flags = Register.finishedFlag ||| d.stereoFlagAt d.tuned := by
  obtain ⟨htuned, hflags⟩ := h.found s hs
  rw [hflags, htuned, stereoFlagAt, stereoFlagAt, stationAt?, stationAt?, h.same.stations]

theorem Searched.yields {q : Search} (h : c.Searched q d) (hband : q.band = c.band) {b : Band}
    (hb : b.InRange) :
    ∃ found, d.Yields b found ∧
      ∀ f, found = some f → b.snap d.tuned = .ok (some f) ∧
        ∃ s, q.find? c.stations = some s ∧ d.tuned = ⟨s.khz⟩ := by
  have htuned := h.inRegister hband
  cases hfind : q.find? c.stations with
  | none => exact ⟨none, .missed (h.missed hfind).2, by simp⟩
  | some s =>
      have hflags := h.flags_of_found hfind
      obtain ⟨found, hsnap, -⟩ := Band.snap_ok hb.fitsWords d.tuned.toRegister
      rw [Freq.ofRegister_toRegister htuned] at hsnap
      cases found with
      | none => exact ⟨none, .strayed hflags htuned hsnap, by simp⟩
      | some f =>
          refine ⟨some f, .found hflags htuned hsnap, ?_⟩
          rintro g ⟨⟩
          exact ⟨hsnap, s, rfl, (h.found s hfind).1⟩

/-! ## Polling -/

/-- A command is sent, and the answer completes it with a verdict. -/
def Answers (c : Chip) (band : Band) (command : Command) (d : Chip) (completed : Command)
    (verdict : Verdict) : Prop :=
  ∃ answer, c.Issues command d answer ∧ command.complete answer band = .ok (completed, verdict)

theorem answers_read (hpowered : c.powered = true) {band : Band} {register length : UInt8}
    {kind : ReadKind} {reading found : Option Reading} {word : UInt16} {verdict : Verdict}
    (hlength : length.toNat = kind.length) (hread : c.read register = some (d, word))
    (hdecode : kind.decode ((Bytes.ofWord word).take kind.length) band = .ok (verdict, found)) :
    c.Answers band (.read register length kind reading) d (.read register length kind found)
      verdict :=
  ⟨_, issues_read hpowered kind reading hlength hread,
    Command.complete_read reading hlength hdecode⟩

def stereoAt (c : Chip) (f : Freq) : Bool := (c.stationAt? f).any Transmitter.stereo

theorem stereoFlagAt_eq (c : Chip) (f : Freq) :
    c.stereoFlagAt f = if c.stereoAt f then Register.stereoFlag else 0 := by
  rw [stereoFlagAt, stereoAt]
  cases c.stationAt? f <;> rfl

variable (hpowered : c.powered = true) (band : Band)

include hpowered

theorem answers_busy (hbusy : 0 < c.busyReads) :
    c.Answers band .pollStatus { c with busyReads := c.busyReads - 1 } .pollStatus .cancel :=
  answers_read hpowered rfl (read_busy hbusy) (ReadKind.decode_scanStatus 0)

theorem answers_failed (hdone : c.busyReads = 0)
    (hflags : c.flags = Register.finishedFlag ||| Register.failedFlag) :
    c.Answers band .pollStatus c .pollStatus .fail := by
  refine answers_read hpowered rfl (read_flags hdone) ?_
  rw [hflags]
  exact ReadKind.decode_scanStatus _

theorem answers_found (hdone : c.busyReads = 0) {f : Freq}
    (hflags : c.flags = Register.finishedFlag ||| c.stereoFlagAt f) :
    c.Answers band .pollStatus c
      (.read Register.flags 2 .scanStatus (some (.scanStatus (c.stereoAt f)))) .success := by
  refine answers_read hpowered rfl (read_flags hdone) ?_
  rw [hflags, stereoFlagAt_eq]
  refine (ReadKind.decode_scanStatus _).trans ?_
  cases c.stereoAt f <;> rfl

theorem answers_frequency (hf : c.tuned.InRegister) {g : Freq}
    (hsnap : band.snap c.tuned = .ok (some g)) :
    c.Answers band .readFrequency c
      (.read Register.frequency 2 .frequency (some (.frequency g))) .success :=
  answers_read hpowered rfl rfl (ReadKind.decode_frequency hf hsnap)

theorem answers_strayed (hf : c.tuned.InRegister) (hsnap : band.snap c.tuned = .ok none) :
    c.Answers band .readFrequency c .readFrequency .fail :=
  answers_read hpowered rfl rfl (ReadKind.decode_frequency hf hsnap)

theorem answers_signal :
    c.Answers band .readSignal c
      (.read Register.signal 1 .signal (some (.signal (c.rssiAt c.tuned)))) .success :=
  answers_read hpowered rfl rfl (ReadKind.decode_signal _)

end Chip

end FmTuner
