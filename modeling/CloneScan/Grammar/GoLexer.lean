import CloneScan.Grammar.Reader

/-!
# Lexical parts of Go

What may stand between two tokens, and where literals end.  A line end is a token of its own only
where a statement can end, so the gap before a token tells where it first crosses one.
-/

namespace CloneScan

namespace Grammar.Go

/-- What stands between two tokens: where the next token starts, the first line end that is crossed,
and the comments. -/
structure Gap where
  next : Nat
  lineEnd : Option Nat
  comments : List (Nat × Nat)

/-- The offset behind a block comment whose body goes on at an offset. -/
def blockCommentEnd? (s : Source) : Nat → Nat → Option Nat
  | 0, _ => none
  | fuel + 1, i =>
    if s.atEnd i then none
    else if s.charAt i == '*' && s.charAt (i + 1) == '/' then some (i + 2)
    else blockCommentEnd? s fuel (i + 1)

/-- Extends a gap over blanks and comments. -/
def extendGap (s : Source) : Nat → Gap → Gap
  | 0, g => g
  | fuel + 1, g =>
    let skip (stop : Nat) : Gap :=
      extendGap s fuel { g with next := stop, comments := g.comments ++ [(g.next, stop)] }
    match s.charAt g.next with
    | ' ' | '\t' | '\r' | '\x0b' | '\x0c' => extendGap s fuel { g with next := g.next + 1 }
    | '\n' =>
      extendGap s fuel
        { g with next := g.next + 1, lineEnd := some (g.lineEnd.getD g.next) }
    | '/' =>
      if s.charAt (g.next + 1) == '/' then skip (s.runEnd (· != '\n') g.next)
      else if s.charAt (g.next + 1) == '*' then
        match blockCommentEnd? s s.size (g.next + 2) with
        | some stop => skip stop
        | none => g
      else g
    | _ =>
      if g.next == 0 && s.unitAt 0 == 0xFEFF then extendGap s fuel { g with next := 1 } else g

/-- The gap from an offset on. -/
def gapAt (s : Source) (i : Nat) : Gap :=
  extendGap s (s.size + 1) ⟨i, none, []⟩

/-! ## Literals -/

/-- The offset behind a string between double quotes whose body goes on at an offset. -/
def quotedEnd? (s : Source) : Nat → Nat → Option Nat
  | 0, _ => none
  | fuel + 1, i =>
    if s.atEnd i then none
    else
      match s.charAt i with
      | '"' => some (i + 1)
      | '\n' => none
      | '\\' => quotedEnd? s fuel (i + 2)
      | _ => quotedEnd? s fuel (i + 1)

/-- A digit of base sixteen. -/
def isHexDigit (c : Char) : Bool :=
  c.isDigit || ('a' ≤ c && c ≤ 'f') || ('A' ≤ c && c ≤ 'F')

/-- Whether all of so many characters from an offset on satisfy a condition. -/
def allFrom (s : Source) (p : Char → Bool) (count i : Nat) : Bool :=
  (List.range count).all fun k => p (s.charAt (i + k))

/-- The offset behind an escape of a character literal. -/
def escapeEnd? (s : Source) (i : Nat) : Option Nat :=
  let c := s.charAt (i + 1)
  let digits (p : Char → Bool) (skip count : Nat) : Option Nat :=
    if allFrom s p count (i + 1 + skip) then some (i + 1 + skip + count) else none
  if c == 'x' then digits isHexDigit 1 2
  else if c == 'u' then digits isHexDigit 1 4
  else if c == 'U' then digits isHexDigit 1 8
  else if '0' ≤ c && c ≤ '7' then digits (fun d => '0' ≤ d && d ≤ '7') 0 3
  else if "abfnrtv\\'\"".toList.contains c then some (i + 2)
  else none

/-- The offset behind the character literal at an offset. -/
def runeEnd? (s : Source) (i : Nat) : Option Nat := do
  let stop ←
    match s.charAt (i + 1) with
    | '\\' => escapeEnd? s (i + 1)
    | '\'' => none
    | _ => if s.atEnd (i + 1) then none else some (i + 1 + (s.scalarAt (i + 1)).2)
  if s.charAt stop == '\'' then some (stop + 1) else none

/-- The type and the end of the string or character literal at an offset; nothing behind an opening
quote that is not closed. -/
def stringAt? (s : Source) (i : Nat) : Option (String × Option Nat) :=
  match s.charAt i with
  | '"' => some ("interpreted_string_literal", quotedEnd? s s.size (i + 1))
  | '`' =>
    let j := s.runEnd (· != '`') (i + 1)
    some ("raw_string_literal", if s.atEnd j then none else some (j + 1))
  | '\'' => some ("rune_literal", runeEnd? s i)
  | _ => none

/-- The end of digits between which single underscores may stand. -/
def digitsEnd (s : Source) (isDigit : Char → Bool) : Nat → Nat → Nat
  | 0, i => i
  | fuel + 1, i =>
    let j := s.runEnd isDigit i
    if j == i then i
    else if s.charAt j == '_' && isDigit (s.charAt (j + 1)) then digitsEnd s isDigit fuel (j + 1)
    else j

/-- The end of an exponent after one of two letters, or the offset when there is none. -/
def exponentEnd (s : Source) (small large : Char) (i : Nat) : Nat :=
  if s.charAt i == small || s.charAt i == large then
    let j := if s.charAt (i + 1) == '+' || s.charAt (i + 1) == '-' then i + 2 else i + 1
    let k := digitsEnd s Char.isDigit s.size j
    if k == j then i else k
  else i

/-- The end of the digits of a base after its mark. -/
def basedEnd (s : Source) (isDigit : Char → Bool) (i : Nat) : Nat :=
  let start := if s.charAt i == '_' then i + 1 else i
  let stop := digitsEnd s isDigit s.size start
  if stop == start then i else stop

/-- The type and the end of the number at an offset. -/
def numberAt? (s : Source) (i : Nat) : Option (String × Nat) :=
  let c := s.charAt i
  let mark := s.charAt (i + 1)
  let finish (type : String) (stop : Nat) : Option (String × Nat) :=
    if s.charAt stop == 'i' then some ("imaginary_literal", stop + 1) else some (type, stop)
  if c == '0' && (mark == 'x' || mark == 'X') then
    let whole := basedEnd s isHexDigit (i + 2)
    let fraction :=
      if s.charAt whole == '.' then digitsEnd s isHexDigit s.size (whole + 1) else whole
    let power := exponentEnd s 'p' 'P' fraction
    if power != fraction then finish "float_literal" power
    else if whole == i + 2 then some ("int_literal", i + 1)
    else finish "int_literal" whole
  else if c == '0' && (mark == 'b' || mark == 'B') then
    finish "int_literal" (basedEnd s (fun d => d == '0' || d == '1') (i + 2))
  else if c == '0' && (mark == 'o' || mark == 'O') then
    finish "int_literal" (basedEnd s (fun d => '0' ≤ d && d ≤ '7') (i + 2))
  else if c.isDigit || (c == '.' && mark.isDigit) then
    let whole := digitsEnd s Char.isDigit s.size i
    if s.charAt whole == '.' then
      let fraction := digitsEnd s Char.isDigit s.size (whole + 1)
      finish "float_literal" (exponentEnd s 'e' 'E' fraction)
    else
      let power := exponentEnd s 'e' 'E' whole
      finish (if power == whole then "int_literal" else "float_literal") power
  else none

/-- The operators and delimiters, longer ones first. -/
def operators : List String :=
  ["<<=", ">>=", "&^=", "...", "<<", ">>", "&^", "+=", "-=", "*=", "/=", "%=", "&=", "|=", "^=",
    "&&", "||", "<-", "++", "--", "==", "!=", "<=", ">=", ":=", "+", "-", "*", "/", "%", "&", "|",
    "^", "<", ">", "=", "!", "~", "(", ")", "[", "]", "\x7b", "\x7d", ",", ";", ".", ":"]

end Grammar.Go

end CloneScan
