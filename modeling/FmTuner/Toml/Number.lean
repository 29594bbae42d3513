import FmTuner.Toml.Lexical
import FmTuner.Toml.Value

/-!
# Numbers, dates and times of TOML

Digits may be grouped by single underscores. Integers have 64 bits; a positive number too large for
double precision is refused.
-/

namespace FmTuner.Toml

/-! ## Digits -/

/-- Reads further digits after a first one, each possibly after an underscore. -/
def moreDigits (p : Char → Bool) : List Char → Option (Rest (List Char))
  | '_' :: c :: cs =>
      if p c then (moreDigits p cs).map fun (ds, cs) ↦ (c :: ds, cs) else none
  | '_' :: [] => none
  | c :: cs =>
      if p c then (moreDigits p cs).map fun (ds, cs) ↦ (c :: ds, cs) else some ([], c :: cs)
  | [] => some ([], [])

def digits (p : Char → Bool) : List Char → Option (Rest (List Char))
  | c :: cs => if p c then (moreDigits p cs).map fun (ds, cs) ↦ (c :: ds, cs) else none
  | [] => none

/-- Reads decimal digits that begin with a zero only if there is no other. -/
def naturalDigits : List Char → Option (Rest (List Char))
  | '0' :: cs => some (['0'], cs)
  | cs => digits Char.isDigit cs

def sign : List Char → Bool × List Char
  | '-' :: cs => (true, cs)
  | '+' :: cs => (false, cs)
  | cs => (false, cs)

/-! ## Integers -/

def isInteger64 (i : Int) : Bool := Int64.minValue.toInt ≤ i && i ≤ Int64.maxValue.toInt

def integerOf (i : Int) (cs : List Char) : Option (Rest Value) :=
  if isInteger64 i then some (.integer i, cs) else none

def integer (cs : List Char) : Option (Rest Value) :=
  match cs with
  | '0' :: 'x' :: cs => do
      let (ds, cs) ← digits isHexDigit cs
      integerOf (ofDigits 16 ds) cs
  | '0' :: 'o' :: cs => do
      let (ds, cs) ← digits isOctalDigit cs
      integerOf (ofDigits 8 ds) cs
  | '0' :: 'b' :: cs => do
      let (ds, cs) ← digits isBinaryDigit cs
      integerOf (ofDigits 2 ds) cs
  | cs => do
      let (negative, cs) := sign cs
      let (ds, cs) ← naturalDigits cs
      let n : Int := ofDigits 10 ds
      integerOf (if negative then -n else n) cs

/-! ## Numbers with a fraction or an exponent -/

/-- Whether `mantissa * 10 ^ exponent` is rounded to infinity in double precision. -/
def overflows (mantissa : Nat) (exponent : Int) : Bool :=
  if mantissa = 0 then false
  else
    let size := (Nat.toDigits 10 mantissa).length + exponent
    if size < 300 then false
    else if 400 < size then true
    else
      let limit := Nat.pow 2 1024 - Nat.pow 2 970
      limit * Nat.pow 10 (-exponent).toNat ≤ mantissa * Nat.pow 10 exponent.toNat

def fraction : List Char → Option (Option (List Char) × List Char)
  | '.' :: cs => (digits Char.isDigit cs).map fun (ds, cs) ↦ (some ds, cs)
  | cs => some (none, cs)

def exponent : List Char → Option (Option Int × List Char)
  | c :: cs =>
      if c = 'e' ∨ c = 'E' then do
        let (negative, cs) := sign cs
        let (ds, cs) ← digits Char.isDigit cs
        let n : Int := ofDigits 10 ds
        some (some (if negative then -n else n), cs)
      else some (none, c :: cs)
  | [] => some (none, [])

def textBefore (cs rest : List Char) : String :=
  String.ofList (cs.take (cs.length - rest.length))

def decimal (cs : List Char) : Option (Rest Value) := do
  let (negative, rest) := sign cs
  let (whole, rest) ← naturalDigits rest
  let (parts, rest) ← fraction rest
  let (power, rest) ← exponent rest
  if parts.isNone && power.isNone then none
  else
    let decimals := parts.getD []
    let scale := power.getD 0 - decimals.length
    if !negative && overflows (ofDigits 10 (whole ++ decimals)) scale then none
    else some (.float (textBefore cs rest), rest)

/-- Reads an infinity or what is not a number. -/
def special (cs : List Char) : Option (Rest Value) :=
  let rest := (sign cs).2
  (word? ['i', 'n', 'f'] rest <|> word? ['n', 'a', 'n'] rest).map fun rest ↦
    (.float (textBefore cs rest), rest)

/-! ## Dates and times -/

/-- Reads a number of exactly `count` digits between two limits. -/
def field (count low high : Nat) (cs : List Char) : Option (Rest Nat) :=
  let ds := cs.take count
  let n := ofDigits 10 ds
  if ds.length = count ∧ ds.all Char.isDigit ∧ low ≤ n ∧ n ≤ high then some (n, cs.drop count)
  else none

def isLeapYear (year : Nat) : Bool :=
  year % 4 = 0 && (year % 100 ≠ 0 || year % 400 = 0)

def daysInMonth (year month : Nat) : Nat :=
  if month = 2 then if isLeapYear year then 29 else 28
  else if month = 4 ∨ month = 6 ∨ month = 9 ∨ month = 11 then 30
  else 31

def skipDate (cs : List Char) : Option (List Char) := do
  let (year, cs) ← field 4 0 9999 cs
  let (month, cs) ← field 2 1 12 (← expect '-' cs)
  let (_, cs) ← field 2 1 (daysInMonth year month) (← expect '-' cs)
  some cs

def skipSubsecond : List Char → List Char
  | '.' :: c :: cs => if c.isDigit then cs.dropWhile Char.isDigit else '.' :: c :: cs
  | cs => cs

/-- Skips a time of day, which may be a leap second. -/
def skipTime (cs : List Char) : Option (List Char) := do
  let (_, cs) ← field 2 0 23 cs
  let (_, cs) ← field 2 0 59 (← expect ':' cs)
  let (_, cs) ← field 2 0 60 (← expect ':' cs)
  some (skipSubsecond cs)

def skipOffset : List Char → Option (List Char)
  | 'Z' :: cs => some cs
  | 'z' :: cs => some cs
  | c :: cs =>
      if c = '+' ∨ c = '-' then do
        let (_, cs) ← field 2 0 23 cs
        let (_, cs) ← field 2 0 59 (← expect ':' cs)
        some cs
      else some (c :: cs)
  | [] => some []

def skipTimeOfDate (cs : List Char) : Option (List Char) :=
  match cs with
  | c :: rest =>
      if c = 'T' ∨ c = 't' ∨ c = ' ' then
        match skipTime rest with
        | some rest => skipOffset rest
        | none => some cs
      else some cs
  | [] => some []

def dateTime (cs : List Char) : Option (Rest Value) :=
  ((skipDate cs >>= skipTimeOfDate) <|> skipTime cs).map fun rest ↦
    (.datetime (textBefore cs rest), rest)

def number (cs : List Char) : Option (Rest Value) :=
  dateTime cs <|> decimal cs <|> special cs <|> integer cs

end FmTuner.Toml
