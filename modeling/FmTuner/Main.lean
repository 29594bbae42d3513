import FmTuner.Daemon

/-!
# The program

Reads files and writes the transcript of the daemon.
-/

open FmTuner

def readText? (path : String) : IO (Option String) := do
  try
    let text ← IO.FS.readFile path
    return some text
  catch _ => return none

/-- The directory for the configurations of the user. A relative one does not count. -/
def userDirectory? : IO (Option String) := do
  match (← IO.getEnv "XDG_CONFIG_HOME").filter (·.startsWith "/") with
  | some directory => return some directory
  | none => return ((← IO.getEnv "HOME").filter (· ≠ "")).map (· ++ "/.config")

def main (arguments : List String) : IO UInt32 := do
  let transcript ← Daemon.run readText? (← userDirectory?) arguments
  for line in transcript.output do
    IO.println line
  for line in transcript.log do
    IO.println s!"{line.level.name} {line.text}"
  if let some message := transcript.error then
    IO.eprintln s!"Error: {message}"
  return UInt32.ofNat transcript.exitCode
