import FmTuner.Text.Numeral

/-!
# Log levels

A level is named by its English name in any case, or by its number, where 1 is the most severe.
-/

namespace FmTuner

inductive LogLevel where
  | error
  | warn
  | info
  | debug
  | trace
  deriving DecidableEq, Repr

namespace LogLevel

def name : LogLevel → String
  | .error => "ERROR"
  | .warn => "WARN"
  | .info => "INFO"
  | .debug => "DEBUG"
  | .trace => "TRACE"

def number : LogLevel → Nat
  | .error => 1
  | .warn => 2
  | .info => 3
  | .debug => 4
  | .trace => 5

def all : List LogLevel := [.error, .warn, .info, .debug, .trace]

def ofText? (s : String) : Option LogLevel :=
  match Text.natural? s with
  | some n => all.find? fun l ↦ l.number = n
  | none => all.find? fun l ↦ l.name = s.map Char.toUpper

/-- The configured level, or info if there is none or it is no level. -/
def ofConfig (s : Option String) : LogLevel :=
  (s.bind ofText?).getD .info

/-- Whether lines of a level are shown when `l` is the most verbose level asked for. -/
def shows (l line : LogLevel) : Bool := line.number ≤ l.number

end LogLevel

end FmTuner
