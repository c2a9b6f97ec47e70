import CloneScan.Grammar.Reader

/-!
# Lexical parts of Ruby

What may stand between two tokens, and where literals end.  A line end ends a statement unless the
next line goes on with a call, and the bodies of the heredocs that a line opens stand behind its end.
-/

namespace CloneScan

namespace Grammar.Ruby

/-- A heredoc whose body has not been reached: the word that closes it and whether that word may be
indented. -/
structure Heredoc where
  word : Text
  indented : Bool

/-- What stands between two tokens: where the next token starts, whether a line end is crossed, the
comments and heredoc bodies in it, with their types, and the heredocs that still wait for their
bodies. -/
structure Gap where
  next : Nat
  crossed : Bool
  pieces : List (String × Nat × Nat)
  waiting : List Heredoc

/-- The end of the line at an offset: the offset of its line end or of the end of the text. -/
def lineStop (s : Source) (i : Nat) : Nat :=
  s.runEnd (· != '\n') i

/-- Whether the units between two offsets are those of a text. -/
def reads (s : Source) (t : Text) (start stop : Nat) : Bool :=
  s.slice start stop == t

/-- The end of the word that closes a heredoc, searched line by line from the line end at an
offset. -/
def heredocEnd? (s : Source) (h : Heredoc) : Nat → Nat → Option Nat
  | 0, _ => none
  | fuel + 1, i =>
    if s.atEnd i then none
    else
      let stop := lineStop s (i + 1)
      let start := if h.indented then s.runEnd (fun c => c == ' ' || c == '\t') (i + 1) else i + 1
      let close := if 0 < stop && s.charAt (stop - 1) == '\r' then stop - 1 else stop
      if start ≤ close && reads s h.word start close then some close
      else heredocEnd? s h fuel stop

/-- The bodies of the heredocs that wait at the line end at an offset, and the offset behind them;
nothing when one of them is not closed. -/
def heredocBodies? (s : Source) : Nat → List Heredoc → Option (List (Nat × Nat) × Nat)
  | i, [] => some ([], i)
  | i, h :: rest => do
    let stop ← heredocEnd? s h (s.size + 1) i
    let (bodies, last) ← heredocBodies? s stop rest
    return ((i, stop) :: bodies, last)

/-- The end of a block comment: of the line that starts with its end mark. -/
def blockCommentEnd (s : Source) : Nat → Nat → Nat
  | 0, i => i
  | fuel + 1, i =>
    if s.atEnd i then i
    else
      let stop := lineStop s i
      if s.spells i "=end" then stop else blockCommentEnd s fuel (stop + 1)

/-- Whether an offset is the first of a line. -/
def startsLine (s : Source) (i : Nat) : Bool :=
  i == 0 || s.charAt (i - 1) == '\n'

/-- Extends a gap over blanks, comments, joined lines and heredoc bodies. -/
def extendGap (s : Source) : Nat → Gap → Gap
  | 0, g => g
  | fuel + 1, g =>
    let comment (stop : Nat) : Gap :=
      extendGap s fuel { g with next := stop, pieces := g.pieces ++ [("comment", g.next, stop)] }
    match s.charAt g.next with
    | ' ' | '\t' | '\r' | '\x0b' | '\x0c' => extendGap s fuel { g with next := g.next + 1 }
    | '\n' =>
      match heredocBodies? s g.next g.waiting with
      | none => g
      | some ([], i) => extendGap s fuel { g with next := i + 1, crossed := true }
      | some (bodies, i) =>
        extendGap s fuel
          { g with
            next := i
            waiting := []
            pieces := g.pieces ++ bodies.map fun (start, stop) => ("heredoc_body", start, stop) }
    | '#' => comment (lineStop s g.next)
    | '=' =>
      if startsLine s g.next && s.spells g.next "=begin" then
        comment (blockCommentEnd s s.size g.next)
      else g
    | '\\' =>
      if s.charAt (g.next + 1) == '\n' then extendGap s fuel { g with next := g.next + 2 }
      else if s.charAt (g.next + 1) == '\r' && s.charAt (g.next + 2) == '\n' then
        extendGap s fuel { g with next := g.next + 3 }
      else g
    | _ => g

/-- Whether the line at an offset goes on with a call of what stands before it. -/
def continuesCall (s : Source) (i : Nat) : Bool :=
  (s.charAt i == '.' && s.charAt (i + 1) != '.') || s.spells i "&."

/-- The gap from an offset on, with the heredocs that wait there.  A line end counts unless the next
line continues a call. -/
def gapAt (s : Source) (i : Nat) (waiting : List Heredoc) : Gap :=
  let g := extendGap s (s.size + 1) ⟨i, false, [], waiting⟩
  if continuesCall s g.next then { g with crossed := false } else g

/-! ## Names -/

/-- A character that can stand in a name, ASCII or not. -/
def isNameChar (c : Char) : Bool :=
  c.isAlphanum || c == '_' || c == '\u0080'

/-- The end of the name at an offset, if there is one. -/
def nameEnd? (s : Source) (i : Nat) : Option Nat :=
  if isNameChar (s.charAt i) && !(s.charAt i).isDigit && !s.atEnd i then
    some (s.runEnd isNameChar i)
  else none

/-- The name at an offset with the mark that may end the name of a method. -/
def methodEnd? (s : Source) (i : Nat) : Option Nat :=
  (nameEnd? s i).map fun stop =>
    let mark := s.charAt stop
    let after := s.charAt (stop + 1)
    let opens := after == '=' && s.charAt (stop + 2) != '=' && s.charAt (stop + 2) != '~' &&
      s.charAt (stop + 2) != '>'
    if (mark == '?' || mark == '!') && !opens then stop + 1 else stop

/-- The word at an offset, for comparison with keywords; empty when there is none or when a mark
belongs to it. -/
def wordAt (s : Source) (i : Nat) : String :=
  match methodEnd? s i with
  | none => ""
  | some stop =>
    let units := s.slice i stop
    if units.all (· < 0x80) then String.ofList (units.map fun u => Char.ofNat u.toNat) else ""

/-- Whether a name starts with a capital letter. -/
def isConstant (s : Source) (i : Nat) : Bool :=
  (s.charAt i).isUpper

/-- The type and the end of the variable with a mark before its name at an offset. -/
def variableAt? (s : Source) (i : Nat) : Option (String × Nat) :=
  match s.charAt i with
  | '@' =>
    if s.charAt (i + 1) == '@' then (nameEnd? s (i + 2)).map fun stop => ("class_variable", stop)
    else (nameEnd? s (i + 1)).map fun stop => ("instance_variable", stop)
  | '$' =>
    let c := s.charAt (i + 1)
    match nameEnd? s (i + 1) with
    | some stop => some ("global_variable", stop)
    | none =>
      if c.isDigit then some ("global_variable", s.runEnd Char.isDigit (i + 1))
      else if c == '-' && isNameChar (s.charAt (i + 2)) then some ("global_variable", i + 3)
      else if "!@&`'+~=/\\,;.<>*$?:\"".toList.contains c then some ("global_variable", i + 2)
      else none
  | _ => none

/-- The operators that are names of methods, longer ones first. -/
def methodOperators : List String :=
  ["[]=", "[]", "**", "===", "==", "=~", "<=>", "<=", "<<", "<", ">=", ">>", ">", "!=", "!~", "+@",
    "-@", "~@", "!@", "!", "+", "-", "*", "/", "%", "&", "|", "^", "~", "`"]

/-! ## Literals between delimiters -/

/-- The delimiters of a literal and whether code can stand in it. -/
structure Delimiters where
  opener : Char
  closer : Char
  interpolates : Bool

/-- The bracket that closes a bracket; other delimiters close themselves. -/
def closerOf (c : Char) : Char :=
  match c with
  | '(' => ')'
  | '[' => ']'
  | '\x7b' => '\x7d'
  | '<' => '>'
  | c => c

/-- Where a scan inside a literal stands. -/
inductive Zone where
  /-- In the text between delimiters, with so many openers unclosed inside. -/
  | text (d : Delimiters) (depth : Nat)
  /-- In code between braces, with so many braces unclosed inside. -/
  | code (depth : Nat)

/-- The offset behind a literal, with the zones around the place last. -/
def literalEnd? (s : Source) : Nat → Nat → List Zone → Option Nat
  | 0, _, _ => none
  | _, i, [] => some i
  | fuel + 1, i, zone :: around =>
    if s.atEnd i then none
    else
      let c := s.charAt i
      match zone with
      | .text d depth =>
        if c == '\\' then literalEnd? s fuel (i + 2) (zone :: around)
        else if d.interpolates && c == '#' && s.charAt (i + 1) == '\x7b' then
          literalEnd? s fuel (i + 2) (.code 0 :: zone :: around)
        else if c == d.closer then
          match depth with
          | 0 => literalEnd? s fuel (i + 1) around
          | depth + 1 => literalEnd? s fuel (i + 1) (.text d depth :: around)
        else if c == d.opener then literalEnd? s fuel (i + 1) (.text d (depth + 1) :: around)
        else literalEnd? s fuel (i + 1) (zone :: around)
      | .code depth =>
        if c == '\x7b' then literalEnd? s fuel (i + 1) (.code (depth + 1) :: around)
        else if c == '\x7d' then
          match depth with
          | 0 => literalEnd? s fuel (i + 1) around
          | depth + 1 => literalEnd? s fuel (i + 1) (.code depth :: around)
        else if c == '"' || c == '`' then
          literalEnd? s fuel (i + 1) (.text ⟨c, c, true⟩ 0 :: zone :: around)
        else if c == '\'' then literalEnd? s fuel (i + 1) (.text ⟨c, c, false⟩ 0 :: zone :: around)
        else literalEnd? s fuel (i + 1) (zone :: around)

/-- The offset behind the closing delimiter of a literal whose text starts at an offset. -/
def closingEnd? (s : Source) (d : Delimiters) (i : Nat) : Option Nat :=
  literalEnd? s (2 * s.size + 2) i [.text d 0]

/-- The offset behind a regular expression with its flags. -/
def regexEnd? (s : Source) (d : Delimiters) (i : Nat) : Option Nat :=
  (closingEnd? s d i).map (s.runEnd Char.isLower)

/-- The type and the end of a literal that starts with a percent sign; the end is missing when it is
not closed. -/
def percentAt? (s : Source) (i : Nat) : Option (String × Option Nat) :=
  let kind := s.charAt (i + 1)
  let start := if kind.isAlpha then i + 2 else i + 1
  let opener := s.charAt start
  if s.atEnd start || isNameChar opener || opener == ' ' || opener == '\t' || opener == '\n' ||
      opener == '\r' then none
  else
    let plain : Delimiters := ⟨opener, closerOf opener, false⟩
    let mixed : Delimiters := ⟨opener, closerOf opener, true⟩
    let body := start + 1
    match kind with
    | 'w' => some ("string_array", closingEnd? s plain body)
    | 'W' => some ("string_array", closingEnd? s mixed body)
    | 'i' => some ("symbol_array", closingEnd? s plain body)
    | 'I' => some ("symbol_array", closingEnd? s mixed body)
    | 'q' => some ("string", closingEnd? s plain body)
    | 'Q' => some ("string", closingEnd? s mixed body)
    | 's' => some ("delimited_symbol", closingEnd? s plain body)
    | 'r' => some ("regex", regexEnd? s mixed body)
    | 'x' => some ("subshell", closingEnd? s mixed body)
    | _ => if kind.isAlpha then none else some ("string", closingEnd? s mixed body)

/-- The end of a symbol at an offset, if its colon starts one; the inner end is missing when its
quote is not closed. -/
def symbolAt? (s : Source) (i : Nat) : Option (String × Option Nat) :=
  let c := s.charAt (i + 1)
  if c == '"' || c == '\'' then
    some ("delimited_symbol", closingEnd? s ⟨c, c, c == '"'⟩ (i + 2))
  else
    match methodEnd? s (i + 1) with
    | some stop =>
      let after := s.charAt (stop + 1)
      let setter := s.charAt stop == '=' && isNameChar (s.charAt (stop - 1)) && after != '=' &&
        after != '~' && after != '>'
      some ("simple_symbol", some (if setter then stop + 1 else stop))
    | none =>
      match variableAt? s (i + 1) with
      | some (_, stop) => some ("simple_symbol", some stop)
      | none =>
        (s.firstSpelled (i + 1) methodOperators).map fun op =>
          ("simple_symbol", some (i + 1 + op.length))

/-- Whether a blank or the end of the text is at an offset. -/
def isGapAt (s : Source) (i : Nat) : Bool :=
  let c := s.charAt i
  s.atEnd i || c == ' ' || c == '\t' || c == '\n' || c == '\r'

/-- The end of a character literal at an offset.  A backslash before a gap stands for itself. -/
def characterEnd? (s : Source) (i : Nat) : Option Nat :=
  let c := s.charAt (i + 1)
  if isGapAt s (i + 1) then none
  else if c == '\\' && isGapAt s (i + 2) then some (i + 2)
  else if c == '\\' then
    if s.charAt (i + 2) == 'u' || s.charAt (i + 2) == 'x' then
      some (s.runEnd (fun c => c.isAlphanum || c == '\x7b' || c == '\x7d') (i + 3))
    else if s.charAt (i + 3) == '-' then some (i + 5)
    else some (i + 3)
  else
    let stop := i + 1 + (s.scalarAt (i + 1)).2
    if isNameChar c && isNameChar (s.charAt stop) then none else some stop

/-- The heredoc that an offset opens, and the end of its opener. -/
def heredocAt? (s : Source) (i : Nat) : Option (Heredoc × Nat) :=
  if !s.spells i "<<" then none
  else
    let marked := s.charAt (i + 2) == '-' || s.charAt (i + 2) == '~'
    let start := if marked then i + 3 else i + 2
    let quote := s.charAt start
    if quote == '"' || quote == '\'' || quote == '`' then
      let stop := s.runEnd (fun c => c != quote && c != '\n') (start + 1)
      if s.charAt stop == quote then some (⟨s.slice (start + 1) stop, marked⟩, stop + 1) else none
    else if isNameChar quote && !s.atEnd start then
      let stop := s.runEnd isNameChar start
      some (⟨s.slice start stop, marked⟩, stop)
    else none

/-- The end of digits between which single underscores may stand. -/
def digitsEnd (s : Source) (isDigit : Char → Bool) : Nat → Nat → Nat
  | 0, i => i
  | fuel + 1, i =>
    let j := s.runEnd isDigit i
    if j == i then i
    else if s.charAt j == '_' && isDigit (s.charAt (j + 1)) then digitsEnd s isDigit fuel (j + 1)
    else j

/-- A digit of base sixteen. -/
def isHexDigit (c : Char) : Bool :=
  c.isDigit || ('a' ≤ c && c ≤ 'f') || ('A' ≤ c && c ≤ 'F')

/-- The type and the end of the number at an offset. -/
def numberAt? (s : Source) (i : Nat) : Option (String × Nat) :=
  let mark := (s.charAt (i + 1)).toLower
  let based (isDigit : Char → Bool) : Option (String × Nat) :=
    let stop := digitsEnd s isDigit s.size (i + 2)
    if stop == i + 2 then some ("integer", i + 1) else some ("integer", stop)
  if !(s.charAt i).isDigit then none
  else if s.charAt i == '0' && mark == 'x' then based isHexDigit
  else if s.charAt i == '0' && mark == 'b' then based fun d => d == '0' || d == '1'
  else if s.charAt i == '0' && mark == 'o' then based fun d => '0' ≤ d && d ≤ '7'
  else if s.charAt i == '0' && mark == 'd' then based Char.isDigit
  else
    let whole := digitsEnd s Char.isDigit s.size i
    let fraction :=
      if s.charAt whole == '.' && (s.charAt (whole + 1)).isDigit then
        digitsEnd s Char.isDigit s.size (whole + 1)
      else whole
    let power :=
      if (s.charAt fraction).toLower == 'e' then
        let signed := s.charAt (fraction + 1) == '+' || s.charAt (fraction + 1) == '-'
        let start := if signed then fraction + 2 else fraction + 1
        let stop := digitsEnd s Char.isDigit s.size start
        if stop == start then fraction else stop
      else fraction
    some (if power == whole then "integer" else "float", power)

/-- The letters behind a number that make it rational or complex. -/
def numberMarks : List String :=
  ["ri", "r", "i"]

/-! ## Operators -/

/-- The operators and delimiters, longer ones first. -/
def operators : List String :=
  ["**=", "<=>", "===", "<<=", ">>=", "&&=", "||=", "...", "**", "==", "!=", ">=", "<=", "&&", "||",
    "=~", "!~", "..", "::", "&.", "<<", ">>", "+=", "-=", "*=", "/=", "%=", "&=", "|=", "^=", "=>",
    "->", "+", "-", "*", "/", "%", "=", "<", ">", "!", "~", "&", "|", "^", "?", ":", ",", ".", ";",
    "(", ")", "[", "]", "\x7b", "\x7d"]

/-- The operators that stand between two operands. -/
def binaryOperators : List String :=
  ["<=>", "===", "**", "==", "!=", ">=", "<=", "&&", "||", "=~", "!~", "<<", ">>", "+", "-", "*",
    "/", "%", "<", ">", "&", "|", "^"]

/-- The operators that assign. -/
def assignments : List String :=
  ["=", "**=", "<<=", ">>=", "&&=", "||=", "+=", "-=", "*=", "/=", "%=", "&=", "|=", "^="]

/-- The words that cannot start an operand. -/
def reserved : List String :=
  ["and", "or", "if", "unless", "while", "until", "rescue", "then", "do", "end", "in", "when", "else",
    "elsif", "ensure"]

end Grammar.Ruby

end CloneScan
