import CloneScan.Language

/-!
# Import lines

Which lines of a source text belong to import statements.  The classifier works line by line and
follows an import over several lines until the line that closes it.
-/

namespace CloneScan

namespace Text

/-- What follows `word` at the front of the text, if it stands there. -/
def afterWord? (t : Text) (word : String) : Option Text :=
  let units := Text.ofString word
  if units.isPrefixOf t then some (t.drop units.length) else none

/-- Whether the text goes on with a word character. -/
def continuesWord (t : Text) : Bool :=
  match t with
  | [] => false
  | u :: _ => isWord u

/-- Whether `word` stands at the front as a whole word. -/
def startsWithWholeWord (t : Text) (word : String) : Bool :=
  match t.afterWord? word with
  | none => false
  | some rest => !rest.continuesWord

/-- Whether the text starts with a blank. -/
def startsBlank (t : Text) : Bool :=
  match t with
  | [] => false
  | u :: _ => isBlank u

/-- Whether `from` and a blank stand somewhere in the text, with no word character before them and
no unit that satisfies `stop` anywhere before; `inWord` tells whether a word character precedes the
text. -/
def hasFromBefore (stop : UInt16 → Bool) (inWord : Bool) : Text → Bool
  | [] => false
  | u :: rest =>
    (!inWord && ((afterWord? (u :: rest) "from").map startsBlank).getD false) ||
      (!stop u && hasFromBefore stop (isWord u) rest)

/-- Whether a whole word `from` with a blank after it stands somewhere in the text. -/
def hasFrom (t : Text) : Bool :=
  hasFromBefore (fun _ => false) false t

end Text

namespace ImportLines

/-- Whether a line re-exports from another module: `export`, then `*` or an opening brace, then
`from` before any semicolon. -/
def isReexport (line : Text) : Bool :=
  match line.afterWord? "export" with
  | none => false
  | some rest =>
    rest.startsBlank &&
      match rest.trimLeft with
      | 0x2A :: tail => Text.hasFromBefore (· == 0x3B) false tail
      | 0x7B :: tail => Text.hasFromBefore (· == 0x3B) false tail
      | _ => false

/-- Whether a trimmed line starts an import statement. -/
def starts (language : Option Language) (line : Text) : Bool :=
  match language with
  | some .python =>
    ((line.afterWord? "import").map Text.startsBlank).getD false ||
      ((line.afterWord? "from").map Text.startsBlank).getD false
  | some .typescript | some .javascript => line.startsWithWholeWord "import" || isReexport line
  | some .go => line.startsWithWholeWord "import"
  | some .ruby =>
    line.startsWithWholeWord "require" || line.startsWithWholeWord "require_relative" ||
      line.startsWithWholeWord "load"
  | none => false

/-- Whether an import statement that starts on this trimmed line goes on in the next one. -/
def staysOpen (language : Option Language) (line : Text) : Bool :=
  match language with
  | some .python => line.endsWith [0x28] || (line.contains 0x28 && !line.contains 0x29)
  | some .typescript | some .javascript =>
    line.contains 0x7B && !line.hasFrom && !line.contains 0x7D
  | some .go =>
    match line.afterWord? "import" with
    | none => false
    | some rest => rest.trimLeft == [0x28]
  | _ => false

/-- Whether a trimmed line closes an open import statement. -/
def closes (language : Option Language) (line : Text) : Bool :=
  match language with
  | some .python | some .go => line.contains 0x29
  | some .typescript | some .javascript => line.hasFrom || line.contains 0x7D
  | _ => true

/-- For each line whether it belongs to an import statement. -/
def mark (language : Option Language) : Bool → List Text → List Bool
  | _, [] => []
  | true, raw :: rest => true :: mark language (!closes language raw.trim) rest
  | false, raw :: rest =>
    let line := raw.trim
    if starts language line then true :: mark language (staysOpen language line) rest
    else false :: mark language false rest

end ImportLines

/-- For each line of a source text whether it belongs to an import statement. -/
def importLines (source : Text) (language : Option Language) : List Bool :=
  ImportLines.mark language false source.lines

end CloneScan
