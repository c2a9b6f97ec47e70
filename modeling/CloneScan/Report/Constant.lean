import CloneScan.Language
import CloneScan.Report.Forest
import CloneScan.Report.Reporter

/-!
# Duplicate constants

Constants at the top level of a module, in capital letters, are collected from every file.  Names
that are equal, or close to each other when they have two or more words, are linked; a connected
group that is defined in enough different files is one violation.
-/

namespace CloneScan

/-- A constant with the text of its value on the line of its name. -/
structure ConstantDefinition where
  name : Text
  value : Text
  file : Text
  line : Nat
  tokenCount : Nat
  deriving DecidableEq, Repr

namespace Constant

/-- A name of at least two capital letters, digits and underscores that starts with a letter. -/
def isName (name : Text) : Bool :=
  match name with
  | [] => false
  | u :: rest =>
    Text.isUpper u && !rest.isEmpty &&
      rest.all fun v => Text.isUpper v || Text.isDigit v || v == 0x5F

/-! ## Extraction -/

/-- The index of the name of a declaration that starts at token `i`.  In a language with blocks by
layout it is an identifier in the first column that starts its line; in a script language it is the
identifier after `const`. -/
def nameIndex? (language : Option Language) (tokens : Array Token) (i : Nat) : Option Nat :=
  match tokens[i]? with
  | none => none
  | some t =>
    match language with
    | some .python =>
      let startsLine :=
        if i = 0 then true
        else
          match tokens[i - 1]? with
          | none => true
          | some previous => previous.endLine < t.startLine
      if t.kind == .identifier && t.startColumn == 1 && startsLine then some i else none
    | some .typescript | some .javascript =>
      match tokens[i + 1]? with
      | none => none
      | some next =>
        if t.kind == .keyword && t.text == Text.ofString "const" && next.kind == .identifier then
          some (i + 1)
        else none
    | _ => none

/-- The index from `i` on of the first token that is off the line or an equals sign; each step
moves one token. -/
def skipAnnotation (tokens : Array Token) (line : Nat) : Nat → Nat → Nat
  | 0, i => i
  | fuel + 1, i =>
    match tokens[i]? with
    | none => i
    | some t =>
      if t.startLine == line && t.text != [0x3D] then skipAnnotation tokens line fuel (i + 1) else i

/-- The index of the last token of a value: the last one on the line before a semicolon. -/
def lastOnLine (tokens : Array Token) (line : Nat) : Nat → Nat → Nat
  | 0, i => i
  | fuel + 1, i =>
    match tokens[i + 1]? with
    | none => i
    | some t =>
      if t.startLine == line && t.text != [0x3B] then lastOnLine tokens line fuel (i + 1) else i

/-- The text of a token, if there is one. -/
def textAt (tokens : Array Token) (i : Nat) : Option Text :=
  (tokens[i]?).map (·.text)

/-- Reads the definition whose name is token `nameIndex`: an optional annotation, an equals sign
and a value on one line. -/
def readDefinition? (tokens : Array Token) (nameIndex : Nat) (lines : List Text) (file : Text) :
    Option ConstantDefinition := do
  let name ← tokens[nameIndex]?
  if !isName name.text then none
  else
    let line := name.startLine
    let eq :=
      if textAt tokens (nameIndex + 1) == some [0x3A] then
        skipAnnotation tokens line tokens.size (nameIndex + 1)
      else nameIndex + 1
    let sign ← tokens[eq]?
    if sign.text != [0x3D] || sign.kind != .symbol || sign.startLine != line then none
    else
      let last := lastOnLine tokens line tokens.size eq
      if last = eq then none
      else
        let first ← tokens[eq + 1]?
        let final ← tokens[last]?
        let text := if line = 0 then [] else lines.getD (line - 1) []
        let stop : Int := if final.endLine == line then (final.endColumn : Int) - 1 else text.length
        some
          { name := name.text
            value := Text.trim (sliceSigned text ((first.startColumn : Int) - 1) stop)
            file
            line
            tokenCount := last - nameIndex + 1 }

/-- How a token changes the depth of brackets; a closing one at depth zero changes nothing. -/
def nextDepth (depth : Nat) (t : Token) : Nat :=
  if t.kind != .symbol then depth
  else if t.text == [0x28] || t.text == [0x5B] || t.text == [0x7B] then depth + 1
  else if t.text == [0x29] || t.text == [0x5D] || t.text == [0x7D] then depth - 1
  else depth

/-- The definitions from token `i` on, where `rest` are the tokens from there and `depth` brackets
are open. -/
def extractFrom (language : Option Language) (tokens : Array Token) (lines : List Text)
    (file : Text) (depth i : Nat) (rest : List Token) : List ConstantDefinition :=
  match rest with
  | [] => []
  | t :: rest =>
    let found :=
      if depth = 0 then
        (nameIndex? language tokens i).bind fun n => readDefinition? tokens n lines file
      else none
    found.toList ++ extractFrom language tokens lines file (nextDepth depth t) (i + 1) rest

/-- The constants at the top level of a file. -/
def extract (language : Option Language) (path source : Text) (tokens : List Token) :
    List ConstantDefinition :=
  extractFrom language tokens.toArray source.lines path 0 0 tokens

/-! ## Matching names -/

/-- The words of a name: what stands between underscores. -/
def words (name : Text) : List Text :=
  (name.splitBy (· == 0x5F)).filter fun w => !w.isEmpty

/-- The next row of the distance table: `left` is the entry to the left in the new row, and the
previous row is given from the entry above `left` on. -/
def nextRow (u : UInt16) : Nat → List Nat → Text → List Nat
  | left, above :: aboveNext :: previous, v :: rest =>
    let cost := above + (if u = v then 0 else 1)
    let entry := min (min (aboveNext + 1) (left + 1)) cost
    entry :: nextRow u entry (aboveNext :: previous) rest
  | _, _, _ => []

/-- The last row of the distance table of the first text against the second, row by row. -/
def distanceRows (b : Text) : Nat → List Nat → Text → List Nat
  | _, previous, [] => previous
  | i, previous, u :: rest =>
    distanceRows b (i + 1) ((i + 1) :: nextRow u (i + 1) previous b) rest

/-- The least number of insertions, deletions and replacements of one unit that turn the first text
into the second. -/
def editDistance (a b : Text) : Nat :=
  (distanceRows b 0 (List.range (b.length + 1)) a).getLastD 0

/-- Words with opposite meanings. -/
def antonyms : List (String × String) :=
  [("MAX", "MIN"), ("MAXIMUM", "MINIMUM"), ("START", "END"), ("BEGIN", "END"), ("FIRST", "LAST"),
    ("OPEN", "CLOSE"), ("ON", "OFF"), ("UP", "DOWN"), ("LEFT", "RIGHT"), ("TOP", "BOTTOM"),
    ("HIGH", "LOW"), ("UPPER", "LOWER"), ("IN", "OUT"), ("INPUT", "OUTPUT"), ("READ", "WRITE"),
    ("GET", "SET"), ("ENABLE", "DISABLE"), ("ENABLED", "DISABLED"), ("TRUE", "FALSE"),
    ("PREV", "NEXT"), ("OLD", "NEW"), ("SRC", "DST"), ("ALLOW", "DENY")]

/-- Whether two words have opposite meanings. -/
def areAntonyms (a b : Text) : Bool :=
  antonyms.any fun p =>
    (a == Text.ofString p.1 && b == Text.ofString p.2) ||
      (a == Text.ofString p.2 && b == Text.ofString p.1)

/-- The largest number of edits between names that still match. -/
def maxEdits : Nat := 2

/-- Whether two names match: equal names do; names of two or more words match when they have the
same words or differ by few edits, unless they differ only in digits or by an antonym. -/
def namesMatch (a b : Text) : Bool :=
  if a == b then true
  else
    let left := words a
    let right := words b
    if left.length < 2 || right.length < 2 then false
    else if (a.filter fun u => !Text.isDigit u) == (b.filter fun u => !Text.isDigit u) then false
    else
      let onlyLeft := left.filter fun w => !right.contains w
      let onlyRight := right.filter fun w => !left.contains w
      if onlyLeft.any fun x => onlyRight.any fun y => areAntonyms x y then false
      else if onlyLeft.isEmpty && onlyRight.isEmpty then true
      else editDistance a b ≤ maxEdits

/-! ## Connected groups -/

/-- The items of a list without repetitions, each at its first place. -/
def distinct {α : Type} [BEq α] (items : List α) : List α :=
  items.foldl (fun seen x => if seen.contains x then seen else seen ++ [x]) []

/-- Links number `i` with every later one whose name matches the name of `i`. -/
def linkLater (names : List Text) (forest : Forest names.length) (i : Fin names.length) :
    Forest names.length :=
  ((List.finRange names.length).drop (i + 1)).foldl
    (fun forest j =>
      if namesMatch (names.get i) (names.get j) then forest.link i j else forest) forest

/-- Links the numbers of every two matching names. -/
def linkNames (names : List Text) : Forest names.length :=
  (List.finRange names.length).foldl (linkLater names) (Forest.roots names.length)

/-- The definitions with the numbers of their names. -/
def numbered (names : List Text) (definitions : List ConstantDefinition) :
    List (Fin names.length × ConstantDefinition) :=
  definitions.filterMap fun d => (names.finIdxOf? d.name).map fun i => (i, d)

/-- The connected groups of definitions whose names match, in the order of their first members. -/
def groups (definitions : List ConstantDefinition) : List (List ConstantDefinition) :=
  let names := distinct (definitions.map (·.name))
  let rooted := (linkNames names).rootsOf (numbered names definitions)
  (Clone.group (fun a b => a.1 == b.1) rooted).map fun g => g.map (·.2)

/-! ## Reporting -/

/-- The place of a definition. -/
def place (d : ConstantDefinition) : Location :=
  ⟨d.file, d.line, d.line⟩

/-- The number of different files of some definitions. -/
def fileCount (definitions : List ConstantDefinition) : Nat :=
  (distinct (definitions.map (·.file))).length

/-- A definition as it is listed in a message. -/
def placeText (d : ConstantDefinition) : Text :=
  d.file ++ Text.ofString ":" ++ Text.ofNat d.line

/-- Describes a group of definitions. -/
def buildViolation (definitions : List ConstantDefinition) (level : RuleLevel) : Violation :=
  let ordered := definitions.mergeSort fun a b => Location.le (place a) (place b)
  let comma := Text.ofString ", "
  let names := distinct (ordered.map (·.name))
  let values := distinct (ordered.map (·.value))
  let subject :=
    match names with
    | [name] => Text.ofString "Duplicate constant " ++ name
    | names => Text.ofString "Similar constants " ++ Text.join comma names
  { primary := (ordered.map place).head?
    related := (ordered.map place).drop 1
    lineCount := some 1
    tokenCount := ((ordered.map (·.tokenCount)).min?).getD 0
    occurrenceCount := ordered.length
    message :=
      subject ++ Text.ofString " defined in " ++ Text.ofNat (fileCount ordered) ++
        Text.ofString " files (values: " ++ Text.join comma values ++
        Text.ofString "). Also found in: " ++ Text.join comma ((ordered.drop 1).map placeText)
    level }

end Constant

/-- A file whose constants are collected. -/
structure ConstantSource where
  path : Text
  language : Option Language
  source : Text
  tokens : List Token

/-- The violations of constants that are defined in at least `least` files, and always in two.
Files are matched within their language, and suppressed definitions take no part. -/
def reportConstants (files : List ConstantSource) (least : Nat) (level : RuleLevel)
    (suppressed : SuppressedRanges) : List Violation :=
  let byLanguage := Clone.group (fun (a b : ConstantSource) => a.language == b.language) files
  byLanguage.flatMap fun group =>
    let definitions := group.flatMap fun f =>
      (Constant.extract f.language f.path f.source f.tokens).filter fun d =>
        !isSpanSuppressed (Constant.place d) (suppressed.of f.path)
    (Constant.groups definitions).filterMap fun g =>
      if max 2 least ≤ Constant.fileCount g then some (Constant.buildViolation g level) else none

end CloneScan
