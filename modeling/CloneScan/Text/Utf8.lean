import CloneScan.Text

/-!
# UTF-8

Bytes of a text and back.  A surrogate without a partner is written as `U+FFFD`; on reading, each
longest piece that can start a character but does not go on as one reads as one `U+FFFD`.
-/

namespace CloneScan

namespace Text

/-- The UTF-8 bytes of a scalar value. -/
def scalarBytes (n : Nat) : List UInt8 :=
  if n < 0x80 then [n.toUInt8]
  else if n < 0x800 then [(0xC0 + n / 64).toUInt8, (0x80 + n % 64).toUInt8]
  else if n < 0x10000 then
    [(0xE0 + n / 4096).toUInt8, (0x80 + n / 64 % 64).toUInt8, (0x80 + n % 64).toUInt8]
  else
    [(0xF0 + n / 262144).toUInt8, (0x80 + n / 4096 % 64).toUInt8, (0x80 + n / 64 % 64).toUInt8,
      (0x80 + n % 64).toUInt8]

/-- The UTF-8 bytes of a text. -/
def toUtf8 (t : Text) : List UInt8 :=
  (scalars t).flatMap scalarBytes

/-- The code units of a scalar value. -/
def ofScalar (n : Nat) : Text :=
  if n < 0x10000 then [n.toUInt16]
  else [(0xD800 + (n - 0x10000) / 0x400).toUInt16, (0xDC00 + (n - 0x10000) % 0x400).toUInt16]

/-- What a first byte asks for: how many bytes follow, the range of the first of them, and the bits
that the first byte gives.  Nothing for a byte that starts no character. -/
def leadByte? (b : UInt8) : Option (Nat × Nat × Nat × Nat) :=
  let n := b.toNat
  if n < 0x80 then some (0, 0x80, 0xBF, n)
  else if n < 0xC2 then none
  else if n < 0xE0 then some (1, 0x80, 0xBF, n - 0xC0)
  else if n == 0xE0 then some (2, 0xA0, 0xBF, 0)
  else if n == 0xED then some (2, 0x80, 0x9F, 0xD)
  else if n < 0xF0 then some (2, 0x80, 0xBF, n - 0xE0)
  else if n == 0xF0 then some (3, 0x90, 0xBF, 0)
  else if n < 0xF4 then some (3, 0x80, 0xBF, n - 0xF0)
  else if n == 0xF4 then some (3, 0x80, 0x8F, 4)
  else none

/-- Where the reading of a text stands: `needed` more bytes of a character, the next of them between
`low` and `high`, with the bits so far. -/
structure Utf8State where
  needed : Nat
  low : Nat
  high : Nat
  bits : Nat

/-- Between two characters. -/
def Utf8State.start : Utf8State := ⟨0, 0x80, 0xBF, 0⟩

/-- The text of bytes from a state on. -/
def decodeFrom : Utf8State → List UInt8 → Text
  | s, [] => if s.needed = 0 then [] else [0xFFFD]
  | s, b :: rest =>
    let lead (before : Text) : Text :=
      match leadByte? b with
      | none => before ++ 0xFFFD :: decodeFrom .start rest
      | some (0, _, _, bits) => before ++ bits.toUInt16 :: decodeFrom .start rest
      | some (needed, low, high, bits) => before ++ decodeFrom ⟨needed, low, high, bits⟩ rest
    if s.needed = 0 then lead []
    else if s.low ≤ b.toNat && b.toNat ≤ s.high then
      let bits := s.bits * 64 + (b.toNat - 0x80)
      if s.needed = 1 then ofScalar bits ++ decodeFrom .start rest
      else decodeFrom ⟨s.needed - 1, 0x80, 0xBF, bits⟩ rest
    else lead [0xFFFD]

/-- The text of UTF-8 bytes. -/
def ofUtf8 (bytes : List UInt8) : Text :=
  decodeFrom .start bytes

/-! ## Base 64 -/

/-- The value of a base 64 digit, of either of the two common alphabets. -/
def base64Value? (u : UInt16) : Option Nat :=
  if isUpper u then some (u.toNat - 0x41)
  else if isLower u then some (u.toNat - 0x61 + 26)
  else if isDigit u then some (u.toNat - 0x30 + 52)
  else if u == 0x2B || u == 0x2D then some 62
  else if u == 0x2F || u == 0x5F then some 63
  else none

/-- The bytes of base 64 digits. -/
def base64Bytes : List Nat → List UInt8
  | a :: b :: c :: d :: rest =>
    let n := a * 262144 + b * 4096 + c * 64 + d
    (n / 65536).toUInt8 :: (n / 256).toUInt8 :: n.toUInt8 :: base64Bytes rest
  | [a, b, c] =>
    let n := a * 4096 + b * 64 + c
    [(n / 1024).toUInt8, (n / 4).toUInt8]
  | [a, b] => [((a * 64 + b) / 16).toUInt8]
  | _ => []

/-- The bytes that a base 64 text stands for. -/
def ofBase64 (t : Text) : List UInt8 :=
  base64Bytes (t.filterMap base64Value?)

end Text

end CloneScan
