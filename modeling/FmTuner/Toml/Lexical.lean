/-!
# Lexical rules of TOML

Readers take the characters that are left and give what they read together with the rest, or
nothing if the text does not fit.
-/

namespace FmTuner.Toml

/-- What was read, with the characters that are left. -/
abbrev Rest (α : Type) := α × List Char

def isBlank (c : Char) : Bool := c == ' ' || c == '\t'

/-- The characters that may stand in comments: all but the control characters other than tab. -/
def isPlain (c : Char) : Bool := c == '\t' || (' ' ≤ c && c ≠ '\x7f')

def isHexDigit (c : Char) : Bool :=
  c.isDigit || ('a' ≤ c && c ≤ 'f') || ('A' ≤ c && c ≤ 'F')

def isOctalDigit (c : Char) : Bool := '0' ≤ c && c ≤ '7'

def isBinaryDigit (c : Char) : Bool := c == '0' || c == '1'

def isBareKey (c : Char) : Bool := c.isAlphanum || c == '-' || c == '_'

def digitValue (c : Char) : Nat :=
  if c.isDigit then c.toNat - 48
  else if 'a' ≤ c then c.toNat - 87
  else c.toNat - 55

def ofDigits (base : Nat) (digits : List Char) : Nat :=
  digits.foldl (fun n c ↦ base * n + digitValue c) 0

def skipBlanks (cs : List Char) : List Char := cs.dropWhile isBlank

def skipComment : List Char → List Char
  | '#' :: cs => cs.dropWhile isPlain
  | cs => cs

def newline : List Char → Option (List Char)
  | '\n' :: cs => some cs
  | '\r' :: '\n' :: cs => some cs
  | _ => none

/-- Skips the rest of a line on which nothing more may stand. -/
def lineEnd (cs : List Char) : Option (List Char) :=
  match skipComment (skipBlanks cs) with
  | [] => some []
  | cs => newline cs

def skipSpace : List Char → List Char
  | ' ' :: cs => skipSpace cs
  | '\t' :: cs => skipSpace cs
  | '\n' :: cs => skipSpace cs
  | '\r' :: '\n' :: cs => skipSpace cs
  | cs => cs

/-- Skips blanks, line breaks and comments, at most `fuel` comments. -/
def skipLayoutWith : Nat → List Char → List Char
  | 0, cs => cs
  | fuel + 1, cs =>
      match skipSpace cs with
      | '#' :: cs => skipLayoutWith fuel (cs.dropWhile isPlain)
      | cs => cs

def skipLayout (cs : List Char) : List Char := skipLayoutWith (cs.length + 1) cs

def expect (c : Char) : List Char → Option (List Char)
  | d :: cs => if d = c then some cs else none
  | [] => none

/-- The rest of a text that begins with a word. -/
def word? (word : List Char) (cs : List Char) : Option (List Char) :=
  if cs.take word.length = word then some (cs.drop word.length) else none

end FmTuner.Toml
