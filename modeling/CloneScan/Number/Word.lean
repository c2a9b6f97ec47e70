import CloneScan.Number

/-!
# Words of 32 bits in binary64

Operations on bits read a number as a word: without its fraction, and modulo `2 ^ 32`.  Their result
is the number of a word again, either from zero on or with a sign.
-/

namespace CloneScan

namespace Number

/-- The word of a number; what is not finite reads as zero. -/
def toWord : Number → UInt32
  | .finite q => UInt32.ofInt (q.num.tdiv q.den)
  | _ => 0

/-- A word as an integer from `-2 ^ 31` up to, not including, `2 ^ 31`. -/
def signedValue (w : UInt32) : Int :=
  if w.toNat < 0x80000000 then w.toNat else (w.toNat : Int) - 0x100000000

/-- The number of a word without a sign. -/
def ofUnsigned (w : UInt32) : Number :=
  .finite w.toNat

/-- The number of a word with a sign. -/
def ofSigned (w : UInt32) : Number :=
  .finite (signedValue w)

/-- The number reduced to a word without a sign. -/
def unsigned (x : Number) : Number :=
  ofUnsigned x.toWord

/-- The number reduced to a word with a sign. -/
def signed (x : Number) : Number :=
  ofSigned x.toWord

/-- The exclusive or of two words, with a sign. -/
def wordXor (x y : Number) : Number :=
  ofSigned (x.toWord ^^^ y.toWord)

/-- The low word of the product of two words, with a sign. -/
def wordMul (x y : Number) : Number :=
  ofSigned (x.toWord * y.toWord)

end Number

end CloneScan
