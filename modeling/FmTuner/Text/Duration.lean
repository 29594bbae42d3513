/-!
# Texts of durations

A duration is a whole number of milliseconds. Its text uses the largest unit that leaves a whole
part: seconds with up to three decimals and no trailing zero, or milliseconds. No time at all is
written in nanoseconds.
-/

namespace FmTuner.Text

/-- A number below 1000 as the decimals of a thousandth part, without trailing zeros. -/
def thousandths (n : Nat) : String :=
  if n % 1000 = 0 then ""
  else if n % 100 = 0 then s!".{n / 100}"
  else if n % 10 = 0 then s!".{n / 100}{n / 10 % 10}"
  else s!".{n / 100}{n / 10 % 10}{n % 10}"

def duration (ms : Nat) : String :=
  if ms = 0 then "0ns"
  else if ms < 1000 then s!"{ms}ms"
  else s!"{ms / 1000}{thousandths (ms % 1000)}s"

end FmTuner.Text
