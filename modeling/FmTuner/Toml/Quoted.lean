import FmTuner.Toml.Lexical

/-!
# Quoted strings of TOML

Basic strings have escapes, literal strings have none; either may span lines between triple
quotes. A line break right after the opening triple quote does not belong to the string.
-/

namespace FmTuner.Toml

def charOfDigits? (digits : List Char) : Option Char :=
  if digits.all isHexDigit then
    let n := ofDigits 16 digits
    if n.isValidChar then some (Char.ofNat n) else none
  else none

def escape : List Char → Option (Rest Char)
  | 'b' :: cs => some ('\x08', cs)
  | 't' :: cs => some ('\t', cs)
  | 'n' :: cs => some ('\n', cs)
  | 'f' :: cs => some ('\x0c', cs)
  | 'r' :: cs => some ('\r', cs)
  | '"' :: cs => some ('"', cs)
  | '\\' :: cs => some ('\\', cs)
  | 'u' :: cs =>
      if cs.length < 4 then none else (charOfDigits? (cs.take 4)).map (·, cs.drop 4)
  | 'U' :: cs =>
      if cs.length < 8 then none else (charOfDigits? (cs.take 8)).map (·, cs.drop 8)
  | _ => none

/-- Whether a character may stand unescaped in a basic string. -/
def isBasic (c : Char) : Bool := isPlain c && c ≠ '"' && c ≠ '\\'

def isLiteral (c : Char) : Bool := isPlain c && c ≠ '\''

/-- Reads a basic string after its opening quote. Every round takes a character. -/
def basicBody : Nat → List Char → Option (Rest (List Char))
  | 0, _ => none
  | fuel + 1, cs =>
      match cs with
      | '"' :: cs => some ([], cs)
      | '\\' :: cs => do
          let (c, cs) ← escape cs
          let (s, cs) ← basicBody fuel cs
          some (c :: s, cs)
      | c :: cs =>
          if isBasic c then (basicBody fuel cs).map fun (s, cs) ↦ (c :: s, cs) else none
      | [] => none

def literalBody (cs : List Char) : Option (Rest (List Char)) :=
  (expect '\'' (cs.dropWhile isLiteral)).map (cs.takeWhile isLiteral, ·)

/-- Where a quote character stands inside a string of several lines: the end of the string with
the quotes that still belong to it, or quotes that do not end it. -/
def closing (quote : Char) (cs : List Char) : Bool × List Char × List Char :=
  let count := (cs.takeWhile (· = quote)).length
  if 3 ≤ count then
    let inside := min (count - 3) 2
    (true, List.replicate inside quote, cs.drop (inside + 3))
  else (false, List.replicate count quote, cs.drop count)

/-- Skips the rest of a line that ends with a backslash, and the space that follows it. -/
def continuation (cs : List Char) : Option (List Char) :=
  (newline (skipBlanks cs)).map skipSpace

/-- Reads a basic string of several lines after its opening quotes. -/
def basicLines : Nat → List Char → Option (Rest (List Char))
  | 0, _ => none
  | fuel + 1, cs =>
      match cs with
      | '"' :: _ =>
          match closing '"' cs with
          | (true, s, cs) => some (s, cs)
          | (false, s, cs) => (basicLines fuel cs).map fun (t, cs) ↦ (s ++ t, cs)
      | '\\' :: cs =>
          match continuation cs with
          | some cs => basicLines fuel cs
          | none => do
              let (c, cs) ← escape cs
              let (s, cs) ← basicLines fuel cs
              some (c :: s, cs)
      | c :: rest =>
          if isBasic c then (basicLines fuel rest).map fun (s, cs) ↦ (c :: s, cs)
          else do
            let (s, cs) ← basicLines fuel (← newline cs)
            some ('\n' :: s, cs)
      | [] => none

/-- Reads a literal string of several lines after its opening quotes. -/
def literalLines : Nat → List Char → Option (Rest (List Char))
  | 0, _ => none
  | fuel + 1, cs =>
      match cs with
      | '\'' :: _ =>
          match closing '\'' cs with
          | (true, s, cs) => some (s, cs)
          | (false, s, cs) => (literalLines fuel cs).map fun (t, cs) ↦ (s ++ t, cs)
      | c :: rest =>
          if isLiteral c then (literalLines fuel rest).map fun (s, cs) ↦ (c :: s, cs)
          else do
            let (s, cs) ← literalLines fuel (← newline cs)
            some ('\n' :: s, cs)
      | [] => none

/-- Skips the line break that may follow opening triple quotes. -/
def dropNewline (cs : List Char) : List Char := (newline cs).getD cs

def quotedLine : List Char → Option (Rest String)
  | '"' :: cs => (basicBody (cs.length + 1) cs).map fun (s, cs) ↦ (String.ofList s, cs)
  | '\'' :: cs => (literalBody cs).map fun (s, cs) ↦ (String.ofList s, cs)
  | _ => none

def quoted : List Char → Option (Rest String)
  | '"' :: '"' :: '"' :: cs =>
      (basicLines (cs.length + 1) (dropNewline cs)).map fun (s, cs) ↦ (String.ofList s, cs)
  | '\'' :: '\'' :: '\'' :: cs =>
      (literalLines (cs.length + 1) (dropNewline cs)).map fun (s, cs) ↦ (String.ofList s, cs)
  | cs => quotedLine cs

end FmTuner.Toml
