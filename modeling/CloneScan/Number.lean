import CloneScan.Text

/-!
# Numbers in binary64

Numbers of configuration files, cache records and clocks are IEEE binary64 values.  A finite one is
kept as the rational number that it stands for, so that comparison is exact and every operation is
the exact one followed by `Number.round`.  The sign of zero is never observable here and is not
kept.

A decimal text is read by rounding its exact value.  A number is written with the fewest digits
that read back to it, and of those with the digits nearest to it.
-/

namespace CloneScan

/-- A binary64 value. -/
inductive Number where
  | nan
  | infinite (negative : Bool)
  | finite (value : Rat)
  deriving DecidableEq, Repr

namespace Number

/-! ## Rounding -/

/-- The natural number nearest to `num / den`, a tie going to the even neighbour. -/
def nearestEven (num den : Nat) : Nat :=
  let q := num / den
  let r := num % den
  if 2 * r < den then q
  else if den < 2 * r then q + 1
  else if q % 2 = 0 then q else q + 1

/-- The greatest `e` with `2 ^ e ≤ num / den`, for positive `num` and `den`. -/
def binaryExponent (num den : Nat) : Int :=
  let e : Int := (Nat.log2 num : Int) - (Nat.log2 den : Int)
  let reaches : Bool :=
    match e with
    | .ofNat k => den * Nat.pow 2 k ≤ num
    | .negSucc k => den ≤ num * Nat.pow 2 (k + 1)
  if reaches then e else e - 1

/-- `n * 2 ^ e` as a rational number. -/
def scaleTwo (n : Nat) (e : Int) : Rat :=
  match e with
  | .ofNat k => ((n * Nat.pow 2 k : Nat) : Rat)
  | .negSucc k => mkRat n (Nat.pow 2 (k + 1))

/-- The least magnitude that is out of the finite range. -/
def overflowBound : Rat := (Nat.pow 2 1024 : Rat)

/-- The magnitude of the binary64 value nearest to `num / den`, or nothing on overflow. -/
def roundMagnitude (num den : Nat) : Option Rat :=
  if num = 0 then some 0
  else
    let e := binaryExponent num den
    let unit : Int := max e (-1022) - 52
    let m :=
      match unit with
      | .ofNat k => nearestEven num (den * Nat.pow 2 k)
      | .negSucc k => nearestEven (num * Nat.pow 2 (k + 1)) den
    let value := scaleTwo m unit
    if overflowBound ≤ value then none else some value

/-- The binary64 value nearest to a rational number; ties go to the even mantissa. -/
def round (q : Rat) : Number :=
  let negative := q.num < 0
  match roundMagnitude q.num.natAbs q.den with
  | none => .infinite negative
  | some value => .finite (if negative then -value else value)

/-- The number of a natural count, rounded when it needs more than 53 bits. -/
def ofNat (n : Nat) : Number :=
  round (n : Rat)

/-- The number of an integer, rounded when it needs more than 53 bits. -/
def ofInt (i : Int) : Number :=
  round (i : Rat)

/-! ## Arithmetic and comparison -/

/-- The opposite number. -/
def neg : Number → Number
  | .nan => .nan
  | .infinite s => .infinite (!s)
  | .finite q => .finite (-q)

/-- The rounded sum. -/
def add : Number → Number → Number
  | .nan, _ => .nan
  | _, .nan => .nan
  | .infinite s, .infinite t => if s = t then .infinite s else .nan
  | .infinite s, .finite _ => .infinite s
  | .finite _, .infinite s => .infinite s
  | .finite a, .finite b => round (a + b)

/-- The rounded difference. -/
def sub (a b : Number) : Number :=
  add a (neg b)

/-- The rounded product. -/
def mul : Number → Number → Number
  | .nan, _ => .nan
  | _, .nan => .nan
  | .infinite s, .infinite t => .infinite (s != t)
  | .infinite s, .finite q =>
    if q = 0 then .nan else .infinite (s != decide (q < 0))
  | .finite q, .infinite s =>
    if q = 0 then .nan else .infinite (s != decide (q < 0))
  | .finite a, .finite b => round (a * b)

/-- Whether the first number is at most the second; false as soon as one is no number. -/
def le : Number → Number → Bool
  | .nan, _ => false
  | _, .nan => false
  | .infinite true, _ => true
  | _, .infinite false => true
  | .infinite false, _ => false
  | _, .infinite true => false
  | .finite a, .finite b => a ≤ b

/-- Whether the first number is below the second; false as soon as one is no number. -/
def lt : Number → Number → Bool
  | .nan, _ => false
  | _, .nan => false
  | .infinite s, .infinite t => s && !t
  | .infinite s, .finite _ => s
  | .finite _, .infinite s => !s
  | .finite a, .finite b => a < b

/-- The integer that a finite whole number stands for. -/
def toInt? : Number → Option Int
  | .finite q => if q.den = 1 then some q.num else none
  | _ => none

/-- The count that a finite whole number from zero on stands for. -/
def toNat? (x : Number) : Option Nat :=
  match x.toInt? with
  | some (.ofNat n) => some n
  | _ => none

/-! ## Reading decimals -/

/-- Beyond this many decimal places every positive value overflows or vanishes. -/
def decimalReach : Nat := 400

/-- The number nearest to `digits * 10 ^ exponent`, where `digits` has `length` digits. -/
def ofDecimal (digits length : Nat) (exponent : Int) : Number :=
  if digits = 0 then .finite 0
  else if exponent > decimalReach then .infinite false
  else if exponent + length < -(decimalReach : Int) then .finite 0
  else
    match exponent with
    | .ofNat k => round ((digits * Nat.pow 10 k : Nat) : Rat)
    | .negSucc k => round (mkRat digits (Nat.pow 10 (k + 1)))

/-! ## Shortest decimals -/

/-- A positive decimal: its digits as one number and the power of ten of the last digit. -/
structure Decimal where
  digits : Nat
  exponent : Int
  deriving DecidableEq, Repr

namespace Decimal

/-- The exact value. -/
def value (d : Decimal) : Rat :=
  match d.exponent with
  | .ofNat k => ((d.digits * Nat.pow 10 k : Nat) : Rat)
  | .negSucc k => mkRat d.digits (Nat.pow 10 (k + 1))

/-- The number that the decimal reads as. -/
def read (d : Decimal) : Number :=
  round d.value

end Decimal

/-- The number of decimal digits of a positive natural number. -/
def digitCount (n : Nat) : Nat :=
  (Nat.toDigits 10 n).length

/-- The power of ten of the first decimal digit of a positive value. -/
def decimalExponent (q : Rat) : Int :=
  let num := q.num.natAbs
  let estimate : Int := (digitCount num : Int) - (digitCount q.den : Int)
  if (⟨1, estimate⟩ : Decimal).value ≤ q then estimate else estimate - 1

/-- The two neighbours of a positive value among the decimals of `count` digits, nearer first. -/
def neighbours (q : Rat) (count : Nat) : List Decimal :=
  let last : Int := decimalExponent q - (count : Int) + 1
  let scaled : Rat := q / (⟨1, last⟩ : Decimal).value
  let below := scaled.floor.toNat
  let low : Decimal := ⟨below, last⟩
  let high : Decimal := ⟨below + 1, last⟩
  if (scaled - (below : Rat)) * 2 ≤ 1 then [low, high] else [high, low]

/-- The first neighbour, over `fuel` growing digit counts from `count` on, that reads back. -/
def shortestFrom (q : Rat) : Nat → Nat → Option Decimal
  | 0, _ => none
  | fuel + 1, count =>
    match (neighbours q count).find? (fun d => d.read == .finite q) with
    | some d => some d
    | none => shortestFrom q fuel (count + 1)

/-- Every digit of a positive value whose denominator is a power of two. -/
def exactDecimal (q : Rat) : Decimal :=
  let k := Nat.log2 q.den
  ⟨q.num.natAbs * Nat.pow 5 k, -(k : Int)⟩

/-- The shortest decimal of a positive binary64 value; seventeen digits are enough. -/
def shortest (q : Rat) : Decimal :=
  (shortestFrom q 17 1).getD (exactDecimal q)

/-- Drops the zeros at the end of a decimal's digits; each step divides by ten. -/
def Decimal.trimZeros : Nat → Decimal → Decimal
  | 0, d => d
  | fuel + 1, d =>
    if d.digits ≠ 0 ∧ d.digits % 10 = 0 then trimZeros fuel ⟨d.digits / 10, d.exponent + 1⟩ else d

/-- The layout of a positive decimal: positional from `1e-6` up to, not including, `1e21`, and
with a signed exponent beyond. -/
def Decimal.text (d : Decimal) : Text :=
  let d := d.trimZeros 400
  let digits := Text.ofNat d.digits
  let count : Int := digits.length
  let point : Int := count + d.exponent
  if count ≤ point ∧ point ≤ 21 then
    digits ++ List.replicate (point - count).toNat 0x30
  else if 0 < point ∧ point ≤ 21 then
    digits.take point.toNat ++ [0x2E] ++ digits.drop point.toNat
  else if -6 < point ∧ point ≤ 0 then
    [0x30, 0x2E] ++ List.replicate (-point).toNat 0x30 ++ digits
  else
    let mark : Text := if point - 1 < 0 then [0x65] else [0x65, 0x2B]
    let tail := mark ++ Text.ofInt (point - 1)
    match digits with
    | [] => tail
    | [u] => u :: tail
    | u :: rest => u :: 0x2E :: rest ++ tail

/-- The text of a number: the fewest digits that read back to it. -/
def text : Number → Text
  | .nan => Text.ofString "NaN"
  | .infinite false => Text.ofString "Infinity"
  | .infinite true => Text.ofString "-Infinity"
  | .finite q =>
    if q = 0 then [0x30]
    else
      let magnitude := if q < 0 then -q else q
      let body := (shortest magnitude).text
      if q < 0 then 0x2D :: body else body

end Number

end CloneScan
