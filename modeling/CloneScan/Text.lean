/-!
# Text as UTF-16 code units

Every length, column and comparison of this library counts UTF-16 code units, and a text may hold
a surrogate that has no partner.  A text is therefore its list of code units, and its order is the
lexicographic order of those units.
-/

namespace CloneScan

/-- A text is its sequence of UTF-16 code units. -/
abbrev Text := List UInt16

namespace Text

/-- The code units of one character: one unit, or a surrogate pair above `U+FFFF`. -/
def ofChar (c : Char) : Text :=
  let n := c.toNat
  if n < 0x10000 then [n.toUInt16]
  else [(0xD800 + (n - 0x10000) / 0x400).toUInt16, (0xDC00 + (n - 0x10000) % 0x400).toUInt16]

/-- The code units of a string of characters. -/
def ofString (s : String) : Text :=
  s.toList.flatMap ofChar

/-- A unit that opens a surrogate pair. -/
def isHighSurrogate (u : UInt16) : Bool :=
  0xD800 ≤ u && u ≤ 0xDBFF

/-- A unit that closes a surrogate pair. -/
def isLowSurrogate (u : UInt16) : Bool :=
  0xDC00 ≤ u && u ≤ 0xDFFF

/-- The scalar value of a surrogate pair. -/
def pairValue (high low : UInt16) : Nat :=
  0x10000 + (high.toNat - 0xD800) * 0x400 + (low.toNat - 0xDC00)

/-- The scalar value that a lone surrogate is read as. -/
def replacement : Nat := 0xFFFD

/-- The scalar values of a text; a surrogate without a partner reads as `U+FFFD`. -/
def scalars : Text → List Nat
  | [] => []
  | [u] => [if isHighSurrogate u || isLowSurrogate u then replacement else u.toNat]
  | u :: v :: rest =>
    if isHighSurrogate u && isLowSurrogate v then pairValue u v :: scalars rest
    else (if isHighSurrogate u || isLowSurrogate u then replacement else u.toNat) ::
      scalars (v :: rest)

/-- The characters of a text as a string. -/
def toString (t : Text) : String :=
  String.ofList ((scalars t).map Char.ofNat)

/-! ## Order -/

/-- Lexicographic order by code unit. -/
def order : Text → Text → Ordering
  | [], [] => .eq
  | [], _ :: _ => .lt
  | _ :: _, [] => .gt
  | a :: as, b :: bs => if a < b then .lt else if b < a then .gt else order as bs

/-- Whether the first text comes no later than the second. -/
def le (a b : Text) : Bool :=
  order a b != .gt

/-! ## Character classes -/

/-- The blank characters: ASCII and Unicode spaces, line ends and the byte order mark. -/
def isBlank (u : UInt16) : Bool :=
  (0x09 ≤ u && u ≤ 0x0D) || u == 0x20 || u == 0xA0 || u == 0x1680 ||
    (0x2000 ≤ u && u ≤ 0x200A) || u == 0x2028 || u == 0x2029 || u == 0x202F || u == 0x205F ||
    u == 0x3000 || u == 0xFEFF

/-- An ASCII digit. -/
def isDigit (u : UInt16) : Bool :=
  0x30 ≤ u && u ≤ 0x39

/-- An ASCII capital letter. -/
def isUpper (u : UInt16) : Bool :=
  0x41 ≤ u && u ≤ 0x5A

/-- An ASCII small letter. -/
def isLower (u : UInt16) : Bool :=
  0x61 ≤ u && u ≤ 0x7A

/-- A word character: an ASCII letter, a digit or the underscore. -/
def isWord (u : UInt16) : Bool :=
  isUpper u || isLower u || isDigit u || u == 0x5F

/-- The small form of an ASCII capital letter; any other unit stays. -/
def lowerUnit (u : UInt16) : UInt16 :=
  if isUpper u then u + 0x20 else u

/-- The capital form of an ASCII small letter; any other unit stays. -/
def upperUnit (u : UInt16) : UInt16 :=
  if isLower u then u - 0x20 else u

/-- ASCII letters made small. -/
def lower (t : Text) : Text :=
  t.map lowerUnit

/-- ASCII letters made capital. -/
def upper (t : Text) : Text :=
  t.map upperUnit

/-! ## Parts of a text -/

/-- The text without the blanks at its front. -/
def trimLeft (t : Text) : Text :=
  t.dropWhile isBlank

/-- The text without the blanks at its end. -/
def trimRight (t : Text) : Text :=
  (t.reverse.dropWhile isBlank).reverse

/-- The text without the blanks at both ends. -/
def trim (t : Text) : Text :=
  trimRight (trimLeft t)

/-- Whether every unit is blank. -/
def allBlank (t : Text) : Bool :=
  t.all isBlank

/-- Whether `part` stands at the front of the text. -/
def startsWith (t part : Text) : Bool :=
  part.isPrefixOf t

/-- Whether `part` stands at the end of the text. -/
def endsWith (t part : Text) : Bool :=
  part.isSuffixOf t

/-- Whether `part` stands somewhere in the text. -/
def includes (t part : Text) : Bool :=
  match t with
  | [] => part.isEmpty
  | u :: rest => part.isPrefixOf (u :: rest) || includes rest part

/-- The pieces between the units that satisfy `sep`; there is always at least one piece. -/
def splitBy (sep : UInt16 → Bool) : Text → List Text
  | [] => [[]]
  | u :: rest =>
    if sep u then [] :: splitBy sep rest
    else
      match splitBy sep rest with
      | [] => [[u]]
      | piece :: more => (u :: piece) :: more

/-- The lines of a text: it breaks at a line feed and at a carriage return with a line feed. -/
def lines : Text → List Text
  | [] => [[]]
  | 0x0A :: rest => [] :: lines rest
  | 0x0D :: 0x0A :: rest => [] :: lines rest
  | u :: rest =>
    match lines rest with
    | [] => [[u]]
    | line :: more => (u :: line) :: more

/-- The texts with `sep` between neighbours. -/
def join (sep : Text) : List Text → Text
  | [] => []
  | [t] => t
  | t :: rest => t ++ sep ++ join sep rest

/-- The units from position `start` up to, not including, position `stop`. -/
def slice (t : Text) (start stop : Nat) : Text :=
  (t.drop start).take (stop - start)

/-- The decimal digits of a natural number. -/
def ofNat (n : Nat) : Text :=
  (Nat.toDigits 10 n).flatMap ofChar

/-- The decimal text of an integer. -/
def ofInt (i : Int) : Text :=
  match i with
  | .ofNat n => ofNat n
  | .negSucc n => 0x2D :: ofNat (n + 1)

end Text

end CloneScan
