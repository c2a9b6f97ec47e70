import CloneScan.Grammar.Reader

/-!
# Lexical parts of Python

What may stand between two tokens, and where strings and numbers end.  A line end counts only where
a statement can end, so the gap before a token tells whether it crosses one and how far the next
line is indented.
-/

namespace CloneScan

namespace Grammar.Python

/-- What stands between two tokens: where the next token starts, whether a line end is crossed, how
far the last line is indented, and the comments and joined lines in it, with their types. -/
structure Gap where
  next : Nat
  crossed : Bool
  indent : Nat
  pieces : List (String × Nat × Nat)

/-- The width of a backslash with the line end behind it, or zero. -/
def joinWidth (s : Source) (i : Nat) : Nat :=
  if s.charAt (i + 1) == '\n' then 2
  else if s.charAt (i + 1) == '\r' && s.charAt (i + 2) == '\n' then 3
  else 0

/-- A blank beyond the usual ones: a byte order mark, a word joiner or a space without width. -/
def isRareBlank (u : UInt16) : Bool :=
  u == 0xFEFF || u == 0x2060 || u == 0x200B || u == 0x0B

/-- Extends a gap over blanks, comments and joined lines. -/
def extendGap (s : Source) : Nat → Gap → Gap
  | 0, g => g
  | fuel + 1, g =>
    if s.atEnd g.next then { g with crossed := true, indent := 0 }
    else
      let step (crossed : Bool) (indent : Nat) : Gap :=
        extendGap s fuel { g with next := g.next + 1, crossed, indent }
      match s.charAt g.next with
      | ' ' => step g.crossed (g.indent + 1)
      | '\t' => step g.crossed (g.indent + 8)
      | '\n' => step true 0
      | '\r' | '\x0c' => step g.crossed 0
      | '#' =>
        let stop := s.runEnd (· != '\n') g.next
        extendGap s fuel
          { g with next := stop, pieces := g.pieces ++ [("comment", g.next, stop)] }
      | '\\' =>
        match joinWidth s g.next with
        | 0 => g
        | width =>
          extendGap s fuel
            { g with
              next := g.next + width
              pieces := g.pieces ++ [("line_continuation", g.next, g.next + width)] }
      | _ => if isRareBlank (s.unitAt g.next) then step g.crossed g.indent else g

/-- The gap from an offset on. -/
def gapAt (s : Source) (i : Nat) : Gap :=
  extendGap s (s.size + 1) ⟨i, false, 0, []⟩

/-! ## Strings -/

/-- The quotes of a string and what its letters say. -/
structure Quotes where
  quote : Char
  triple : Bool
  raw : Bool
  format : Bool

/-- A letter that may stand before the opening quote. -/
def isQuoteLetter (c : Char) : Bool :=
  "fFrRbBuU".toList.contains c

/-- The opening of a string at an offset and the offset behind it. -/
def openString? (s : Source) (i : Nat) : Option (Quotes × Nat) :=
  let j := s.runEnd isQuoteLetter i
  let letters := s.slice i j
  let has (a b : UInt16) : Bool := letters.any fun u => u == a || u == b
  let quote := s.charAt j
  if quote == '"' || quote == '\'' || quote == '`' then
    let triple := quote != '`' && s.charAt (j + 1) == quote && s.charAt (j + 2) == quote
    some (⟨quote, triple, has 0x72 0x52, has 0x66 0x46⟩, if triple then j + 3 else j + 1)
  else none

/-- The offset behind an escape in a string that is not raw. -/
def afterEscape (s : Source) (i : Nat) : Nat :=
  match s.charAt (i + 1) with
  | '\\' | '"' | '\'' | '\n' => i + 2
  | '\r' => if s.charAt (i + 2) == '\n' then i + 3 else i + 1
  | 'N' =>
    if s.charAt (i + 2) == '\x7b' then
      let j := s.runEnd (· != '\x7d') (i + 3)
      if s.atEnd j then i + 1 else j + 1
    else i + 1
  | _ => i + 1

/-- The offset behind a backslash in a raw string. -/
def afterRawEscape (s : Source) (quote : Char) (i : Nat) : Nat :=
  let c := s.charAt (i + 1)
  let j := if c == quote || c == '\\' then i + 2 else i + 1
  if s.charAt j == '\r' && s.charAt (j + 1) == '\n' then j + 2
  else if s.charAt j == '\r' || s.charAt j == '\n' then j + 1
  else j

/-- Where a scan inside a string stands. -/
inductive Zone where
  /-- In the text of a string; the flag tells whether there was text since the last break. -/
  | text (q : Quotes) (filled : Bool)
  /-- In the expression of a replacement field, so many brackets deep. -/
  | field (depth : Nat)
  /-- In the format of a replacement field. -/
  | format

/-- Whether a backquote may close as many as three quotes from an offset on. -/
def closes (s : Source) (q : Quotes) (i : Nat) : Bool :=
  s.charAt i == q.quote &&
    (!q.triple || (s.charAt (i + 1) == q.quote && s.charAt (i + 2) == q.quote))

/-- The offset behind a string, with the zones around the place last. -/
def stringEnd? (s : Source) : Nat → Nat → List Zone → Option Nat
  | 0, _, _ => none
  | _, i, [] => some i
  | fuel + 1, i, zone :: around =>
    if s.atEnd i then none
    else
      let c := s.charAt i
      match zone with
      | .text q filled =>
        if q.format && (c == '\x7b' || c == '\x7d') then
          if s.charAt (i + 1) == c then stringEnd? s fuel (i + 2) (.text q false :: around)
          else if c == '\x7b' then
            stringEnd? s fuel (i + 1) (.field 0 :: .text q false :: around)
          else stringEnd? s fuel (i + 1) (.text q true :: around)
        else if c == '\\' then
          let j := if q.raw then afterRawEscape s q.quote i else afterEscape s i
          stringEnd? s fuel j (.text q false :: around)
        else if closes s q i then stringEnd? s fuel (i + if q.triple then 3 else 1) around
        else if c == '\n' && filled && !q.triple then none
        else stringEnd? s fuel (i + 1) (.text q true :: around)
      | .field depth =>
        let go (i depth : Nat) : Option Nat := stringEnd? s fuel i (.field depth :: around)
        if c == '(' || c == '[' || c == '\x7b' then go (i + 1) (depth + 1)
        else if depth == 0 && c == '\x7d' then stringEnd? s fuel (i + 1) around
        else if c == ')' || c == ']' || c == '\x7d' then go (i + 1) (depth - 1)
        else if depth == 0 && c == ':' then stringEnd? s fuel (i + 1) (.format :: around)
        else if c.isAlpha || c == '_' || c == '"' || c == '\'' then
          match openString? s i with
          | some (q, j) => stringEnd? s fuel j (.text q false :: .field depth :: around)
          | none => go (max (i + 1) (s.runEnd (fun c => c.isAlphanum || c == '_') i)) depth
        else go (i + 1) depth
      | .format =>
        if c == '\x7b' then stringEnd? s fuel (i + 1) (.field 0 :: .format :: around)
        else if c == '\x7d' then stringEnd? s fuel (i + 1) around
        else if c == '\n' then none
        else stringEnd? s fuel (i + 1) (.format :: around)

/-- The offset behind the string at an offset; nothing when it is not closed. -/
def stringAt? (s : Source) (i : Nat) : Option Nat :=
  (openString? s i).bind fun (q, j) => stringEnd? s (2 * s.size + 2) j [.text q false]

/-! ## Numbers -/

/-- The end of digits between which single underscores may stand. -/
def digitsEnd (s : Source) (isDigit : Char → Bool) : Nat → Nat → Nat
  | 0, i => i
  | fuel + 1, i =>
    let j := s.runEnd isDigit i
    if j == i then i
    else if s.charAt j == '_' then
      let k := digitsEnd s isDigit fuel (j + 1)
      if k == j + 1 then j + 1 else k
    else j

/-- The end of digits after a base mark: an underscore may stand before each group. -/
def basedEnd (s : Source) (isDigit : Char → Bool) : Nat → Nat → Nat
  | 0, i => i
  | fuel + 1, i =>
    let start := if s.charAt i == '_' then i + 1 else i
    let j := s.runEnd isDigit start
    if j == start then i else basedEnd s isDigit fuel j

/-- The end of an exponent at an offset, or the offset when there is none. -/
def exponentEnd (s : Source) (i : Nat) : Nat :=
  if s.charAt i == 'e' || s.charAt i == 'E' then
    let j := if s.charAt (i + 1) == '+' || s.charAt (i + 1) == '-' then i + 2 else i + 1
    let k := digitsEnd s Char.isDigit s.size j
    if k == j then i else k
  else i

/-- The offset behind an optional letter. -/
def afterLetter (s : Source) (letters : List Char) (i : Nat) : Nat :=
  if letters.contains (s.charAt i) then i + 1 else i

/-- A digit of base sixteen. -/
def isHexDigit (c : Char) : Bool :=
  c.isDigit || ('a' ≤ c && c ≤ 'f') || ('A' ≤ c && c ≤ 'F')

/-- The type and the end of the number at an offset. -/
def numberAt? (s : Source) (i : Nat) : Option (String × Nat) :=
  let c := s.charAt i
  let mark := s.charAt (i + 1)
  let based (isDigit : Char → Bool) : Option (String × Nat) :=
    let j := basedEnd s isDigit s.size (i + 2)
    if j == i + 2 then some ("integer", i + 1)
    else some ("integer", afterLetter s ['l', 'L'] j)
  if c == '0' && (mark == 'x' || mark == 'X') then based isHexDigit
  else if c == '0' && (mark == 'o' || mark == 'O') then based fun d => '0' ≤ d && d ≤ '7'
  else if c == '0' && (mark == 'b' || mark == 'B') then based fun d => d == '0' || d == '1'
  else
    let digits := digitsEnd s Char.isDigit s.size
    let whole := digits i
    if whole == i && !(c == '.' && (s.charAt (i + 1)).isDigit) then none
    else if s.charAt whole == '.' then
      let fraction := digits (whole + 1)
      some ("float", afterLetter s ['l', 'L', 'j', 'J'] (exponentEnd s fraction))
    else
      let power := exponentEnd s whole
      if power == whole then some ("integer", afterLetter s ['l', 'L', 'j', 'J'] whole)
      else some ("float", afterLetter s ['l', 'L', 'j', 'J'] power)

/-- The operators and delimiters, longer ones first. -/
def operators : List String :=
  ["**=", "//=", ">>=", "<<=", "...", "!=", "->", ":=", "==", "<=", ">=", "<>", "+=", "-=", "*=",
    "/=", "%=", "&=", "|=", "^=", "@=", "**", "//", ">>", "<<", "+", "-", "*", "/", "%", "@", "&",
    "|", "^", "~", "<", ">", "(", ")", "[", "]", "\x7b", "\x7d", ",", ":", ".", ";", "="]

end Grammar.Python

end CloneScan
