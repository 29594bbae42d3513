import FmTuner.Config.Toml
import FmTuner.Log
import FmTuner.Service.Errand
import FmTuner.Startup
import FmTuner.Text.Literal

/-!
# The daemon

The whole program: it reads the command line and the configuration, opens the service, runs its
errand, reports the state of the radio, and switches the radio off when it is told to stop. What it
writes is collected in a transcript.
-/

namespace FmTuner

structure Transcript where
  exitCode : Nat := 0
  /-- The lines on standard output that are not part of the log. -/
  output : List String := []
  log : List LogLine := []
  /-- The error that ended the program. -/
  error : Option String := none
  deriving DecidableEq, Repr

namespace Daemon

def configFileName : String := "fmrx.toml"

/-- Where the configuration is looked for: here, in the user's directory for configurations, if
there is one, and in that of the system. -/
def searchPaths (userDirectory : Option String) : List String :=
  [configFileName] ++ userDirectory.toList.map (fun d ↦ s!"{d}/fmrx/{configFileName}") ++
    [s!"/etc/fmrx/{configFileName}"]

/-- A transcript that ends with an error before anything was logged. -/
def failure (message : String) : Transcript := { exitCode := 1, error := some message }

def commandLineFailure : CommandLineError → Transcript
  | .displayHelp => { output := CommandLine.helpLines }
  | .displayVersion => { output := [CommandLine.versionLine] }
  | _ => { exitCode := 2 }

def configErrorReport (path : String) : ConfigError → String
  | .unreadable =>
      s!"ReadError({Text.literal path}, {Text.literal noFile})"
  | .malformed => s!"ParseError({Text.literal path}, {Text.literal noConfig})"
  | .missingSection => s!"ParseError({Text.literal path}, {Text.literal noSection})"
where
  noFile : String := "No such file or directory (os error 2)"
  noConfig : String := "not a configuration"
  noSection : String := s!"missing [{Config.sectionName}] section"

/-- How long the daemon waits for the radio: longer than any service keeps it waiting. -/
def patience : Nat := Nat.pow 2 80

/-- Runs the errand of a session and switches the radio off, unless it is in the error state. -/
def serve (o : Options) (startup : Startup) (s : Session) : List LogLine :=
  let (s, result) := s.runErrand o startup.band patience
  let radioLines (s : Session) (n : Nat) : List LogLine :=
    (s.service.bulletins.drop n).flatMap Bulletin.logLines
  let verdict : List LogLine :=
    match result with
    | .failed e => [.error s!"Session failed: {e.message}"]
    | _ =>
        if (o.tune.isSome || o.scan.isSome) && !s.isTunedToChannel then
          [.warn "Session finished without tuning to a channel"]
        else []
  let before := radioLines s 0 ++ verdict ++
    [.info s!"snapshot: {s.snapshot.toJson.text}", .info "Ctrl+C received, shutting down"]
  if s.snapshot.state = .error then before
  else
    let (t, reply) := s.request .reset patience
    let after := radioLines t s.service.bulletins.length
    let error : Option RadioError :=
      match reply with
      | .error e => some e
      | .ok (.outcome x) => match x.check Operation.reset.name with
        | .error e => some e
        | .ok () => none
      | .ok _ => none
    before ++ after ++
      error.toList.map fun e ↦ .warn s!"Reset on shutdown failed: {e.message}"

/-- Starts with a configuration that was loaded from a file, if there was one. -/
def start (o : Options) (c : Config) (path : Option String) : Transcript :=
  match c.validate with
  | .error e => failure (Text.literal s!"Invalid server configuration: {e.message}")
  | .ok () =>
      let shown (lines : List LogLine) : List LogLine :=
        lines.filter fun line ↦ (LogLevel.ofConfig c.logLevel).shows line.level
      let loaded : List LogLine :=
        path.toList.map fun p ↦ .info s!"Loaded configuration from {p}"
      match Startup.resolve o c Backend.builtin with
      | .error e => { failure (Text.literal e.message) with log := shown loaded }
      | .ok startup =>
          let band := startup.band
          let starting : LogLine :=
            .info (s!"Starting fmrx-server (backend: {startup.backend}, " ++
              s!"band: {band.min.khz}..{band.max.khz} kHz, spacing {band.spacing} kHz)")
          let service := Service.launch Backend.builtin (startup.serviceSettings c)
          { log := shown (loaded ++ starting :: serve o startup { service }) }

/-- Runs the program. Files are read by `read`, which knows nothing of those that do not exist. -/
def run {m : Type → Type} [Monad m] (read : String → m (Option String))
    (userDirectory : Option String) (arguments : List String) : m Transcript := do
  match CommandLine.parse arguments with
  | .error e => return commandLineFailure e
  | .ok o =>
      if o.printConfig then return { output := Config.sample.fileText.splitOn "\n" }
      else
        match o.config with
        | some path =>
            match ← Config.load read path with
            | .ok c => return start o c (some path)
            | .error e => return failure (configErrorReport path e)
        | none =>
            match ← Config.search read (searchPaths userDirectory) with
            | .ok (c, path) => return start o c path
            | .error e => return failure (configErrorReport configFileName e)

end Daemon

end FmTuner
