import FmTuner.Command

/-!
# Completions

What a callback can make of a command. A protocol error leaves the command as it was, and so does
the confirmation of a command that is no read. A read that is answered takes over the reading that
its bytes decode to, and the verdict of the decoder, which is never a protocol error.
-/

namespace FmTuner

/-! ## Decoding -/

/-- The verdict and the reading that bytes decode to. -/
inductive ReadKind.Decodes (band : Band) : ReadKind → Verdict → Option Reading → Prop where
  | tuned {raw f : Freq} (hsnap : band.snap raw = .ok (some f)) :
      Decodes band .frequency .success (some (.frequency f))
  | strayed : Decodes band .frequency .fail none
  | level (level : UInt8) : Decodes band .signal .success (some (.signal level))
  | busy : Decodes band .scanStatus .cancel none
  | failed : Decodes band .scanStatus .fail none
  | found (stereo : Bool) : Decodes band .scanStatus .success (some (.scanStatus stereo))

theorem ReadKind.decodes_of_decode {kind : ReadKind} {data : List UInt8} {band : Band}
    {verdict : Verdict} {reading : Option Reading}
    (h : kind.decode data band = .ok (verdict, reading)) : kind.Decodes band verdict reading := by
  cases kind with
  | frequency =>
      obtain ⟨low, -, h⟩ := bind_eq_ok.mp h
      obtain ⟨high, -, h⟩ := bind_eq_ok.mp h
      obtain ⟨nearest, hsnap, h⟩ := bind_eq_ok.mp h
      cases nearest with
      | some f =>
          cases h
          exact .tuned hsnap
      | none =>
          cases h
          exact .strayed
  | signal =>
      obtain ⟨level, -, h⟩ := bind_eq_ok.mp h
      cases h
      exact .level level
  | scanStatus =>
      obtain ⟨low, -, h⟩ := bind_eq_ok.mp h
      obtain ⟨high, -, h⟩ := bind_eq_ok.mp h
      dsimp only at h
      split at h
      next =>
        cases h
        exact .busy
      next =>
        split at h
        next =>
          cases h
          exact .failed
        next =>
          cases h
          exact .found _

theorem ReadKind.Decodes.ne_error {kind : ReadKind} {band : Band} {verdict : Verdict}
    {reading : Option Reading} (h : kind.Decodes band verdict reading) : verdict ≠ .error := by
  cases h <;> simp

/-! ## Completing -/

def Command.isRead : Command → Bool
  | .read .. => true
  | _ => false

/-- A command, a callback that completes it, and what it is then. -/
inductive Command.Completes (band : Band) : Command → Callback → Command → Verdict → Prop where
  | refused (command : Command) (callback : Callback) :
      Completes band command callback command .error
  | confirmed {command : Command} (callback : Callback) (hread : command.isRead = false) :
      Completes band command callback command .success
  | decoded {register length : UInt8} {kind : ReadKind} {old found : Option Reading}
      {opcode : UInt16} {payload : List UInt8} {verdict : Verdict}
      (hanswers : answersRead register length opcode payload = true)
      (hdecode : kind.decode (payload.drop 3) band = .ok (verdict, found)) :
      Completes band (.read register length kind old) (.vendor opcode payload)
        (.read register length kind found) verdict

theorem Command.completes_of_complete {command completed : Command} {callback : Callback}
    {band : Band} {verdict : Verdict} (h : command.complete callback band = .ok (completed, verdict)) :
    Completes band command callback completed verdict := by
  unfold complete at h
  split at h
  next =>
    cases h
    split
    · exact .confirmed _ rfl
    · exact .refused _ _
  next =>
    cases h
    exact .confirmed _ rfl
  next =>
    cases h
    split
    · exact .confirmed _ rfl
    · exact .refused _ _
  next register length kind old opcode payload =>
    split at h
    next hanswers =>
      obtain ⟨result, hdecode, h⟩ := bind_eq_ok.mp h
      cases h
      exact .decoded hanswers hdecode
    next =>
      cases h
      exact .refused _ _
  next =>
    cases h
    exact .refused _ _

theorem Command.complete_answered {register length : UInt8} {kind : ReadKind}
    {old : Option Reading} {opcode : UInt16} {payload : List UInt8}
    (hanswers : answersRead register length opcode payload = true) (band : Band) :
    (read register length kind old).complete (.vendor opcode payload) band =
      (kind.decode (payload.drop 3) band).map fun x ↦ (.read register length kind x.2, x.1) := by
  rw [complete, if_pos hanswers]
  cases kind.decode (payload.drop 3) band <;> rfl

theorem Command.decodes_of_answered {register length : UInt8} {kind : ReadKind}
    {old : Option Reading} {opcode : UInt16} {payload : List UInt8} {band : Band}
    {completed : Command} {verdict : Verdict}
    (hanswers : answersRead register length opcode payload = true)
    (h : (read register length kind old).complete (.vendor opcode payload) band =
      .ok (completed, verdict)) :
    ∃ found, kind.Decodes band verdict found ∧ completed = .read register length kind found := by
  rw [complete_answered hanswers] at h
  cases hdecode : kind.decode (payload.drop 3) band with
  | error fault => simp [hdecode, Except.map] at h
  | ok result =>
      rw [hdecode] at h
      cases h
      exact ⟨result.2, ReadKind.decodes_of_decode hdecode, rfl⟩

end FmTuner
