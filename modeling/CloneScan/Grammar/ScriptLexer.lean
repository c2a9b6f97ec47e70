import CloneScan.Grammar.Reader
import CloneScan.ScriptTree.NodeKind

/-!
# Lexemes of scripts

The tokens of a script by themselves.  What a slash, a closing brace, a greater-than sign or the text
behind a tag begins depends on the place in the grammar, so for those there are second readings of
the same place.
-/

namespace CloneScan

namespace Grammar.Script

/-- A token: its number, its spelling if that is fixed, the offset behind the token before it, its own
start and end, and whether a line end stands before it. -/
structure Lexeme where
  number : Nat
  text : String
  full : Nat
  start : Nat
  stop : Nat
  broken : Bool
  deriving Inhabited

/-- The spellings of the punctuation in the order of their numbers. -/
def marks : List String :=
  ["\x7b", "\x7d", "(", ")", "[", "]", ".", "...", ";", ",", "?.", "<", "</", ">", "<=", ">=", "==",
    "!=", "===", "!==", "=>", "+", "-", "*", "**", "/", "%", "++", "--", "<<", ">>", ">>>", "&", "|",
    "^", "!", "~", "&&", "||", "?", ":", "@", "??", "`", "#", "=", "+=", "-=", "*=", "**=", "/=", "%=",
    "<<=", ">>=", ">>>=", "&=", "|=", "||=", "&&=", "??=", "^="]

/-- The spellings of the keywords in the order of their numbers. -/
def words : List String :=
  NodeKind.keywordNames.map String.toLower

/-- The number of a spelling. -/
def numberOf (w : String) : Nat :=
  match marks.idxOf? w with
  | some n => NodeKind.firstPunctuation + n
  | none => NodeKind.firstKeyword + (words.idxOf? w).getD 0

/-- The number of a keyword, if a name is one. -/
def wordNumber? (w : String) : Option Nat :=
  (words.idxOf? w).map (NodeKind.firstKeyword + ·)

/-- The marks that are read where nothing is known of the grammar, longer ones first. -/
def plainMarks : List String :=
  ["...", "===", "!==", "**=", "<<=", "&&=", "||=", "??=", "=>", "==", "!=", "<=", "<<", "++", "--",
    "**", "&&", "||", "??", "?.", "+=", "-=", "*=", "/=", "%=", "&=", "|=", "^=", "\x7b", "\x7d", "(",
    ")", "[", "]", ".", ";", ",", "<", ">", "+", "-", "*", "/", "%", "&", "|", "^", "!", "~", "?",
    ":", "@", "="]

/-- The marks that a greater-than sign can begin, longer ones first. -/
def greaterMarks : List String :=
  [">>>=", ">>>", ">>=", ">>", ">=", ">"]

/-! ## Between tokens -/

/-- A blank that ends no line. -/
def isBlankUnit (u : UInt16) : Bool :=
  u == 0x20 || u == 0x09 || u == 0x0B || u == 0x0C || u == 0xA0 || u == 0x85 || u == 0x1680 ||
    (0x2000 ≤ u && u ≤ 0x200B) || u == 0x202F || u == 0x205F || u == 0x3000 || u == 0xFEFF

/-- The end of the line at an offset. -/
def lineStop (s : Source) : Nat → Nat → Nat
  | 0, i => i
  | fuel + 1, i =>
    if s.atEnd i || LineTable.isBreak (s.unitAt i) then i else lineStop s fuel (i + 1)

/-- The end of a block comment whose body goes on at an offset, and whether it crosses a line end. -/
def blockStop (s : Source) : Nat → Nat → Bool → Nat × Bool
  | 0, i, broken => (i, broken)
  | fuel + 1, i, broken =>
    if s.atEnd i then (i, broken)
    else if s.charAt i == '*' && s.charAt (i + 1) == '/' then (i + 2, broken)
    else blockStop s fuel (i + 1) (broken || LineTable.isBreak (s.unitAt i))

/-- The start of the next token from an offset on, and whether a line end is crossed. -/
def skipGap (s : Source) : Nat → Nat → Bool → Nat × Bool
  | 0, i, broken => (i, broken)
  | fuel + 1, i, broken =>
    let u := s.unitAt i
    if s.atEnd i then (i, broken)
    else if isBlankUnit u then skipGap s fuel (i + 1) broken
    else if LineTable.isBreak u then skipGap s fuel (i + 1) true
    else if s.charAt i == '/' && s.charAt (i + 1) == '/' then
      skipGap s fuel (lineStop s s.size i) broken
    else if s.charAt i == '/' && s.charAt (i + 1) == '*' then
      let (stop, broken) := blockStop s s.size (i + 2) broken
      skipGap s fuel stop broken
    else if i == 0 && s.charAt 0 == '#' && s.charAt 1 == '!' then
      skipGap s fuel (lineStop s s.size 0) broken
    else (i, broken)

/-! ## Names -/

/-- The width of a code point in digits of base sixteen behind a backslash, or zero. -/
def escapeWidth (s : Source) (i : Nat) : Nat :=
  let isHex (c : Char) : Bool := c.isDigit || ('a' ≤ c && c ≤ 'f') || ('A' ≤ c && c ≤ 'F')
  if s.charAt i == '\\' && s.charAt (i + 1) == 'u' then
    if s.charAt (i + 2) == '\x7b' then
      let stop := s.runEnd isHex (i + 3)
      if s.charAt stop == '\x7d' && i + 3 < stop then stop + 1 - i else 0
    else if (List.range 4).all (fun k => isHex (s.charAt (i + 2 + k))) then 6
    else 0
  else 0

/-- The width of the part of a name at an offset, or zero. -/
def partWidth (s : Source) (first : Bool) (i : Nat) : Nat :=
  if s.charAt i == '$' then 1
  else if s.charAt i == '\\' then escapeWidth s i
  else if !first && (s.unitAt i == 0x200C || s.unitAt i == 0x200D) then 1
  else s.nameWidth first i

/-- The end of the name that goes on at an offset. -/
def nameRest (s : Source) : Nat → Nat → Nat
  | 0, i => i
  | fuel + 1, i =>
    match partWidth s false i with
    | 0 => i
    | width => nameRest s fuel (i + width)

/-- The end of the name at an offset, if there is one. -/
def nameEnd? (s : Source) (i : Nat) : Option Nat :=
  match partWidth s true i with
  | 0 => none
  | width => some (nameRest s s.size (i + width))

/-- The number and the spelling of the name between two offsets. -/
def classify (s : Source) (start stop : Nat) : Nat × String :=
  let units := s.slice start stop
  if units.length ≤ 12 && units.all Text.isLower then
    let w := String.ofList (units.map fun u => Char.ofNat u.toNat)
    match wordNumber? w with
    | some n => (n, w)
    | none => (NodeKind.identifier, "")
  else (NodeKind.identifier, "")

/-! ## Literals -/

/-- The end of a string whose text goes on at an offset: behind its quote, or at a line end. -/
def stringEnd (s : Source) (quote : Char) (multiline : Bool) : Nat → Nat → Nat
  | 0, i => i
  | fuel + 1, i =>
    if s.atEnd i then i
    else
      let c := s.charAt i
      if c == quote then i + 1
      else if c == '\\' && !multiline then
        let width := if s.charAt (i + 1) == '\r' && s.charAt (i + 2) == '\n' then 3 else 2
        stringEnd s quote multiline fuel (min s.size (i + width))
      else if LineTable.isBreak (s.unitAt i) && !multiline then i
      else stringEnd s quote multiline fuel (i + 1)

/-- The end of a part of a template whose text goes on at an offset, and whether a substitution
follows. -/
def templateEnd (s : Source) : Nat → Nat → Nat × Bool
  | 0, i => (i, false)
  | fuel + 1, i =>
    if s.atEnd i then (i, false)
    else
      match s.charAt i with
      | '`' => (i + 1, false)
      | '$' => if s.charAt (i + 1) == '\x7b' then (i + 2, true) else templateEnd s fuel (i + 1)
      | '\\' => templateEnd s fuel (min s.size (i + 2))
      | _ => templateEnd s fuel (i + 1)

/-- The end of a regular expression whose text goes on at an offset, without its flags.  The flags
tell whether the place is behind a backslash and whether it is in a class of characters. -/
def regexBodyEnd (s : Source) : Nat → Bool → Bool → Nat → Nat
  | 0, _, _, i => i
  | fuel + 1, escaped, inClass, i =>
    if s.atEnd i || LineTable.isBreak (s.unitAt i) then i
    else if escaped then regexBodyEnd s fuel false inClass (i + 1)
    else
      match s.charAt i with
      | '/' => if inClass then regexBodyEnd s fuel false inClass (i + 1) else i + 1
      | '[' => regexBodyEnd s fuel false true (i + 1)
      | ']' => regexBodyEnd s fuel false false (i + 1)
      | '\\' => regexBodyEnd s fuel true inClass (i + 1)
      | _ => regexBodyEnd s fuel false inClass (i + 1)

/-- The end of digits and underscores. -/
def digitsEnd (s : Source) (i : Nat) : Nat :=
  s.runEnd (fun c => c.isDigit || c == '_') i

/-- The number and the end of the numeric literal at an offset. -/
def numericEnd (s : Source) (i : Nat) : Nat × Nat :=
  let withMark (stop : Nat) : Nat × Nat :=
    if s.charAt stop == 'n' then (NodeKind.bigNumeric, stop + 1) else (NodeKind.numeric, stop)
  let mark := (s.charAt (i + 1)).toLower
  let isHex (c : Char) : Bool :=
    c.isDigit || c == '_' || ('a' ≤ c && c ≤ 'f') || ('A' ≤ c && c ≤ 'F')
  if s.charAt i == '0' && mark == 'x' then withMark (s.runEnd isHex (i + 2))
  else if s.charAt i == '0' && mark == 'b' then
    withMark (s.runEnd (fun c => c == '0' || c == '1' || c == '_') (i + 2))
  else if s.charAt i == '0' && mark == 'o' then
    withMark (s.runEnd (fun c => ('0' ≤ c && c ≤ '7') || c == '_') (i + 2))
  else
    let whole := digitsEnd s i
    let octal := s.charAt i == '0' && i + 1 < whole &&
      (s.slice i whole).all (fun u => 0x30 ≤ u && u ≤ 0x37)
    if octal then (NodeKind.numeric, whole)
    else
      let fraction := if s.charAt whole == '.' then digitsEnd s (whole + 1) else whole
      if (s.charAt fraction).toLower == 'e' then
        let signed := s.charAt (fraction + 1) == '+' || s.charAt (fraction + 1) == '-'
        (NodeKind.numeric, digitsEnd s (if signed then fraction + 2 else fraction + 1))
      else if fraction == whole then withMark whole
      else (NodeKind.numeric, fraction)

/-! ## Tokens -/

/-- The number, the spelling and the end of the token that starts at an offset.  The flag tells
whether the start of a closing tag is one token. -/
def tokenAt (s : Source) (markup : Bool) (i : Nat) : Nat × String × Nat :=
  let c := s.charAt i
  let literal (found : Nat × Nat) : Nat × String × Nat := (found.1, "", found.2)
  if s.atEnd i then (NodeKind.endOfFile, "", i)
  else if c == '"' || c == '\'' then (NodeKind.string, "", stringEnd s c false s.size (i + 1))
  else if c == '`' then
    let (stop, more) := templateEnd s s.size (i + 1)
    (if more then NodeKind.templateHead else NodeKind.template, "", stop)
  else if c.isDigit || (c == '.' && (s.charAt (i + 1)).isDigit) then literal (numericEnd s i)
  else if c == '#' then
    match nameEnd? s (i + 1) with
    | some stop => (NodeKind.privateIdentifier, "", stop)
    | none => if s.charAt (i + 1) == '!' then (NodeKind.unknown, "", i + 1)
      else (NodeKind.privateIdentifier, "", i + 1)
  else if markup && c == '<' && s.charAt (i + 1) == '/' && s.charAt (i + 2) != '*' then
    (numberOf "</", "</", i + 2)
  else
    match nameEnd? s i with
    | some stop =>
      let (number, text) := classify s i stop
      (number, text, stop)
    | none =>
      if i == 0 && s.unitAt i == 0xFFFD then (NodeKind.nonText, "", s.size)
      else if s.spells i "?." && (s.charAt (i + 2)).isDigit then (numberOf "?", "?", i + 1)
      else
        match s.firstSpelled i plainMarks with
        | some mark => (numberOf mark, mark, i + mark.length)
        | none => (NodeKind.unknown, "", i + (s.scalarAt i).2)

/-- The next token from an offset on. -/
def lexemeFrom (s : Source) (markup : Bool) (full : Nat) : Lexeme :=
  let (start, broken) := skipGap s (s.size + 1) full false
  let (number, text, stop) := tokenAt s markup start
  ⟨number, text, full, start, stop, broken⟩

namespace Lexeme

/-- Whether a token is a name or a keyword. -/
def isNameLike (l : Lexeme) : Bool :=
  NodeKind.identifier ≤ l.number

/-- Whether a token is a keyword. -/
def isWord (l : Lexeme) : Bool :=
  NodeKind.firstKeyword ≤ l.number

/-- A greater-than sign read as the longest mark that it begins. -/
def widenGreater (s : Source) (l : Lexeme) : Lexeme :=
  if l.text == ">" then
    match s.firstSpelled l.start greaterMarks with
    | some mark => { l with number := numberOf mark, text := mark, stop := l.start + mark.length }
    | none => l
  else l

/-- A mark read as its first character alone. -/
def narrow (l : Lexeme) (w : String) : Lexeme :=
  { l with number := numberOf w, text := w, stop := l.start + 1 }

/-- A slash read as the start of a regular expression. -/
def asRegex (s : Source) (l : Lexeme) : Lexeme :=
  let body := regexBodyEnd s s.size false false (l.start + 1)
  { l with number := NodeKind.regex, text := "", stop := nameRest s s.size body }

/-- A closing brace read as the end of a substitution in a template. -/
def asTemplate (s : Source) (l : Lexeme) : Lexeme :=
  let (stop, more) := templateEnd s s.size (l.start + 1)
  let number := if more then NodeKind.templateMiddle else NodeKind.templateTail
  { l with number, text := "", stop }

/-- A name read as a name in markup, in which hyphens may stand. -/
def asMarkupName (s : Source) (l : Lexeme) : Lexeme :=
  if l.isNameLike then
    let stop := s.skipWhile (· == '-') s.size l.stop
    if stop == l.stop then l
    else
      let isPart (c : Char) : Bool := c.isAlphanum || c == '_' || c == '$' || c == '-'
      let stop := s.runEnd isPart stop
      { l with number := NodeKind.identifier, text := "", stop }
  else l

end Lexeme

/-- The end of the text between markup at an offset, whether it has been blank so far, and whether it
is blank and crosses a line end. -/
def markupTextEnd (s : Source) : Nat → Nat → Bool → Bool → Nat × Bool
  | 0, i, _, crossed => (i, crossed)
  | fuel + 1, i, blank, crossed =>
    let u := s.unitAt i
    if s.atEnd i || s.charAt i == '\x7b' || s.charAt i == '<' then (i, blank && crossed)
    else if LineTable.isBreak u then markupTextEnd s fuel (i + 1) blank (crossed || blank)
    else markupTextEnd s fuel (i + 1) (blank && isBlankUnit u) crossed

/-- The token between markup at an offset: a brace, the start of a tag, or text. -/
def markupLexeme (s : Source) (i : Nat) : Lexeme :=
  let mark (w : String) : Lexeme := ⟨numberOf w, w, i, i, i + w.length, false⟩
  if s.atEnd i then ⟨NodeKind.endOfFile, "", i, i, i, false⟩
  else if s.charAt i == '<' then mark (if s.charAt (i + 1) == '/' then "</" else "<")
  else if s.charAt i == '\x7b' then mark "\x7b"
  else
    let (stop, blank) := markupTextEnd s s.size i true false
    ⟨if blank then NodeKind.markupBlank else NodeKind.markupText, "", i, i, stop, false⟩

/-- The value of an attribute in markup from an offset on; a string may cross line ends. -/
def attributeLexeme (s : Source) (i : Nat) : Lexeme :=
  let c := s.charAt i
  if c == '"' || c == '\'' then ⟨NodeKind.string, "", i, i, stringEnd s c true s.size (i + 1), false⟩
  else lexemeFrom s true i

end Grammar.Script

end CloneScan
