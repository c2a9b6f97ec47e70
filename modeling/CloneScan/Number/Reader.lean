import CloneScan.Number

/-!
# Numbers in texts

The number that a text spells: a decimal with an optional sign, fraction and exponent, digits after
a base mark, or the word for infinity.  Blanks around the number do not count.
-/

namespace CloneScan

namespace Number

/-- The sign of a number and what follows it. -/
def splitSign (t : Text) : Bool × Text :=
  match t with
  | 0x2D :: rest => (true, rest)
  | 0x2B :: rest => (false, rest)
  | t => (false, t)

/-- The value of a digit of any base up to sixteen. -/
def digitValue? (u : UInt16) : Option Nat :=
  if Text.isDigit u then some (u.toNat - 0x30)
  else if 0x61 ≤ u && u ≤ 0x66 then some (u.toNat - 0x57)
  else if 0x41 ≤ u && u ≤ 0x46 then some (u.toNat - 0x37)
  else none

/-- The value of digits in a base, if there is at least one and all are below the base. -/
def digitsIn? (base : Nat) (t : Text) : Option Nat :=
  if t.isEmpty then none
  else
    t.foldlM
      (fun acc u => do
        let d ← digitValue? u
        if d < base then some (acc * base + d) else none)
      0

/-- An exponent, zero when there is none. -/
def exponent? (t : Text) : Option Int :=
  match t with
  | [] => some 0
  | e :: rest =>
    if e == 0x65 || e == 0x45 then
      let (negative, digits) := splitSign rest
      (digitsIn? 10 digits).map fun n => if negative then -(n : Int) else n
    else none

/-- The number of a decimal with an optional fraction and exponent; there is a digit before the
point or after it. -/
def decimal? (t : Text) : Option Number := do
  let whole := t.takeWhile Text.isDigit
  let rest := t.dropWhile Text.isDigit
  let (fraction, rest) : Text × Text :=
    match rest with
    | 0x2E :: r => (r.takeWhile Text.isDigit, r.dropWhile Text.isDigit)
    | r => ([], r)
  let digits := whole ++ fraction
  let value ← digitsIn? 10 digits
  let exponent ← exponent? rest
  some (ofDecimal value digits.length (exponent - fraction.length))

/-- The number after an optional sign. -/
def signed? (t : Text) : Option Number :=
  let (negative, body) := splitSign t
  let magnitude :=
    if body == Text.ofString "Infinity" then some (.infinite false) else decimal? body
  magnitude.map fun x => if negative then x.neg else x

/-- The number that a text spells: zero when it is blank, no number when it spells none. -/
def ofText (t : Text) : Number :=
  let based (base : Nat) (digits : Text) : Number := ((digitsIn? base digits).map ofNat).getD .nan
  match t.trim with
  | [] => ofNat 0
  | 0x30 :: 0x78 :: digits | 0x30 :: 0x58 :: digits => based 16 digits
  | 0x30 :: 0x6F :: digits | 0x30 :: 0x4F :: digits => based 8 digits
  | 0x30 :: 0x62 :: digits | 0x30 :: 0x42 :: digits => based 2 digits
  | t => (signed? t).getD .nan

end Number

end CloneScan
