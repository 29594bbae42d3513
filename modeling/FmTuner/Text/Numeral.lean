/-!
# Decimal numerals

A numeral is a run of decimal digits with an optional sign in front.
-/

namespace FmTuner.Text

/-- The number that decimal digits stand for, of which there must be one. -/
def digits? (cs : List Char) : Option Nat :=
  if cs ≠ [] ∧ cs.all Char.isDigit then
    some (cs.foldl (fun n c ↦ 10 * n + (c.toNat - 48)) 0)
  else none

/-- The natural number of a numeral, which may carry a plus sign. -/
def natural? (s : String) : Option Nat :=
  match s.toList with
  | '+' :: cs => digits? cs
  | cs => digits? cs

/-- The integer of a numeral with any sign. -/
def integer? (s : String) : Option Int :=
  match s.toList with
  | '-' :: cs => (digits? cs).map fun n ↦ -(n : Int)
  | _ => (natural? s).map Int.ofNat

end FmTuner.Text
