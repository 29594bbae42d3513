/-!
# Bytes: hexadecimal text and little-endian pairs
-/

namespace FmTuner.Text

def hexDigit (n : Nat) : Char :=
  if n < 10 then Char.ofNat (48 + n) else Char.ofNat (87 + n)

def hexByte (b : UInt8) : String :=
  String.ofList [hexDigit (b.toNat / 16), hexDigit (b.toNat % 16)]

def hexBytes (bs : List UInt8) : String :=
  s!"[{String.intercalate comma (bs.map hexByte)}]"
where
  comma : String := ", "

end FmTuner.Text

namespace FmTuner.Bytes

/-- The two bytes of a value, low byte first. -/
def ofWord (v : UInt16) : List UInt8 :=
  [UInt8.ofNat (v.toNat % 256), UInt8.ofNat (v.toNat / 256)]

/-- The value of two bytes, low byte first. -/
def toWord (low high : UInt8) : UInt16 :=
  UInt16.ofNat (low.toNat + 256 * high.toNat)

theorem toWord_ofWord (v : UInt16) :
    toWord (UInt8.ofNat (v.toNat % 256)) (UInt8.ofNat (v.toNat / 256)) = v := by
  apply UInt16.toNat_inj.1
  have h : v.toNat < 65536 := v.toNat_lt
  simp only [toWord, UInt8.toNat_ofNat', UInt16.toNat_ofNat']
  omega

end FmTuner.Bytes
