import FmTuner.Request
import FmTuner.Text.Numeral

/-!
# The command line

Options have a long name and may have a short one. A value follows its option, or is attached to
it: after an equals sign, or directly after a short name. An option is given at most once.
-/

namespace FmTuner

inductive Flag where
  | config
  | printConfig
  | band
  | backend
  | tune
  | scan
  | threshold
  | mono
  | help
  | version
  deriving DecidableEq, Repr

namespace Flag

def all : List Flag :=
  [.config, .printConfig, .band, .backend, .tune, .scan, .threshold, .mono, .help, .version]

def long : Flag → String
  | .config => "config"
  | .printConfig => "print-config"
  | .band => "band"
  | .backend => "backend"
  | .tune => "tune"
  | .scan => "scan"
  | .threshold => "threshold"
  | .mono => "mono"
  | .help => "help"
  | .version => "version"

def short : Flag → Option Char
  | .config => some 'C'
  | .band => some 'b'
  | .tune => some 't'
  | .scan => some 's'
  | .help => some 'h'
  | .version => some 'V'
  | _ => none

def takesValue : Flag → Bool
  | .printConfig | .mono | .help | .version => false
  | _ => true

def ofLong? (name : String) : Option Flag := all.find? fun f ↦ f.long = name

def ofShort? (c : Char) : Option Flag := all.find? fun f ↦ f.short = some c

end Flag

/-- Why a command line gives no options to run with. -/
inductive CommandLineError where
  | unknownArgument
  /-- A value is missing, empty or none of those allowed. -/
  | invalidValue
  /-- A value is no number of 32 bits. -/
  | valueValidation
  /-- An option is given twice. -/
  | argumentConflict
  /-- A value is attached to an option that takes none. -/
  | tooManyValues
  | displayHelp
  | displayVersion
  deriving DecidableEq, Repr

structure Options where
  config : Option String := none
  printConfig : Bool := false
  band : Option String := none
  backend : Option String := none
  /-- The frequency to tune to after the start, in kHz. -/
  tune : Option Nat := none
  scan : Option ScanMode := none
  threshold : Option Nat := none
  mono : Bool := false
  deriving DecidableEq, Repr

namespace CommandLine

def readNumber (s : String) : Except CommandLineError Nat :=
  match Text.integer? s with
  | some i => if 0 ≤ i ∧ i < UInt32.size then .ok i.toNat else .error .valueValidation
  | none => .error .valueValidation

def readScan : String → Except CommandLineError ScanMode
  | "up" => .ok .up
  | "down" => .ok .down
  | "full" => .ok .full
  | _ => .error .invalidValue

structure Scanner where
  options : Options := {}
  given : List Flag := []
  /-- The last option, if it takes a value that has not been looked at yet. -/
  last? : Option (Flag × Option String) := none
  /-- Whether only positional arguments may follow. -/
  trailing : Bool := false
  deriving DecidableEq, Repr

namespace Scanner

def store (o : Options) (flag : Flag) (value : String) : Except CommandLineError Options :=
  match flag with
  | .config =>
      if value.isEmpty then .error .invalidValue else .ok { o with config := some value }
  | .printConfig => .ok { o with printConfig := true }
  | .band => .ok { o with band := some value }
  | .backend => .ok { o with backend := some value }
  | .tune => do return { o with tune := some (← readNumber value) }
  | .scan => do return { o with scan := some (← readScan value) }
  | .threshold => do return { o with threshold := some (← readNumber value) }
  | .mono => .ok { o with mono := true }
  | .help => .error .displayHelp
  | .version => .error .displayVersion

/-- Takes an option with its value, which must be the first time. -/
def accept (s : Scanner) (flag : Flag) (value : String) : Except CommandLineError Scanner :=
  if flag ∈ s.given then .error .argumentConflict
  else do
    return { s with options := ← store s.options flag value, given := flag :: s.given }

def close (s : Scanner) : Except CommandLineError Scanner :=
  match s.last? with
  | none => .ok s
  | some (_, none) => .error .invalidValue
  | some (flag, some value) => Scanner.accept { s with last? := none } flag value

def take (s : Scanner) (flag : Flag) (attached : Option String) :
    Except CommandLineError Scanner :=
  if flag.takesValue then do
    let s ← s.close
    match attached with
    | some value => s.accept flag value
    | none => return { s with last? := some (flag, none) }
  else if attached.isSome then .error .tooManyValues
  else do (← s.close).accept flag ""

def long (s : Scanner) (body : List Char) : Except CommandLineError Scanner :=
  let name := String.ofList (body.takeWhile (· ≠ '='))
  let attached :=
    match body.dropWhile (· ≠ '=') with
    | [] => none
    | _ :: value => some (String.ofList value)
  match Flag.ofLong? name with
  | some flag => s.take flag attached
  | none => .error .unknownArgument

def short (s : Scanner) : List Char → Except CommandLineError Scanner
  | [] => .ok s
  | c :: rest =>
      match Flag.ofShort? c with
      | none => .error .unknownArgument
      | some flag =>
          if flag.takesValue then
            match rest with
            | [] => s.take flag none
            | '=' :: value => s.take flag (some (String.ofList value))
            | value => s.take flag (some (String.ofList value))
          else do (← s.take flag none).short rest

/-- Takes an argument that is no option: the value of the last one, or nothing that is known. -/
def plain (s : Scanner) (argument : String) : Except CommandLineError Scanner :=
  match s.last? with
  | some (flag, none) => .ok { s with last? := some (flag, some argument) }
  | _ => .error .unknownArgument

def argument (s : Scanner) (argument : String) : Except CommandLineError Scanner :=
  if s.trailing then .error .unknownArgument
  else
    match argument.toList with
    | ['-', '-'] => .ok { s with trailing := true }
    | '-' :: '-' :: body => s.long body
    | '-' :: c :: body => s.short (c :: body)
    | _ => s.plain argument

end Scanner

def parse (arguments : List String) : Except CommandLineError Options := do
  let s ← arguments.foldlM Scanner.argument {}
  return (← s.close).options

/-! ## Help -/

def helpLines : List String :=
  ["fmrx-server - FM tuner control daemon",
    "",
    "Usage: fmrx-server [OPTIONS]",
    "",
    "Options:",
    "  -C, --config <FILE>          Path to configuration file",
    "      --print-config           Print example configuration and exit",
    "  -b, --band <BAND>            Band preset (europe-us, us, japan)",
    "      --backend <BACKEND>      Tuner backend to use (e.g. sim)",
    "  -t, --tune <KHZ>             Tune to this frequency after start (kHz)",
    "  -s, --scan <SCAN>            Run a scan after start (and after tuning) " ++
      "[possible values: up, down, full]",
    "      --threshold <THRESHOLD>  Search threshold applied before scanning",
    "      --mono                   Force mono audio",
    "  -h, --help                   Print help",
    "  -V, --version                Print version"]

def versionLine : String := "fmrx-server 0.1.0"

end CommandLine

end FmTuner
