import CloneScan.Yaml.Cursor

/-!
# Reading YAML scalars

Plain, quoted and block scalars, and the properties and aliases of nodes.  Each reader tells whether
there was one at the place; the scalar is then the result of the cursor.
-/

namespace CloneScan

namespace Yaml

/-- Makes a scalar the result. -/
def setScalar (t : Text) : Step Unit :=
  modify fun c => { c with kind := some .scalar, result := .string t }

/-! ## Plain scalars -/

/-- A unit that no plain scalar starts with. -/
def isIndicator (u : UInt16) : Bool :=
  u == 0 || isSeparator u || isFlowUnit u || u == 0x23 || u == 0x26 || u == 0x2A || u == 0x21 ||
    u == 0x7C || u == 0x3E || u == 0x27 || u == 0x22 || u == 0x25 || u == 0x40 || u == 0x60

/-- The state of reading a plain scalar: what is read, the piece in work, and the line of the last
piece when line ends are pending. -/
structure PlainState where
  read : Text
  start : Nat
  stop : Nat
  pending : Option Nat

/-- Reads a plain scalar on from the place. -/
def plainLoop (indent : Int) (inFlow : Bool) : Nat → PlainState → Step Text
  | 0, s => do return s.read ++ (← capture s.start s.stop)
  | fuel + 1, s => do
    let c ← get
    let u := c.unitAt 0
    let finish : Step Text := do return s.read ++ (← capture s.start s.stop)
    let endsHere : Bool :=
      u == 0 ||
        (u == 0x3A && (isSeparator (c.unitAt 1) || c.unitAt 1 == 0 || (inFlow && isFlowUnit (c.unitAt 1)))) ||
        (u == 0x23 && 0 < c.place && isSeparator (c.input.getD (c.place - 1) 0)) ||
        (u != 0x3A && u != 0x23 &&
          ((c.place == c.lineStart && c.atDocumentMark) || (inFlow && isFlowUnit u)))
    if endsHere then finish
    else if isBreak u then
      let _ ← skipSeparation false
      let d ← get
      if indent ≤ (d.lineIndent : Int) then
        plainLoop indent inFlow fuel { s with pending := some (s.pending.getD c.line) }
      else
        set { d with
          place := s.stop, line := c.line, lineStart := c.lineStart, lineIndent := c.lineIndent }
        finish
    else
      let s ←
        match s.pending with
        | none => pure s
        | some line => do
          let piece ← capture s.start s.stop
          pure { read := s.read ++ piece ++ folded (c.line - line), start := c.place, stop := c.place,
                 pending := none }
      let s := if isGap u then s else { s with stop := c.place + 1 }
      set { c with place := c.place + 1 }
      plainLoop indent inFlow fuel s

/-- Reads a plain scalar. -/
def readPlain (indent : Int) (inFlow : Bool) : Step Bool := do
  let c ← get
  let u := c.unitAt 0
  let next := c.unitAt 1
  if isIndicator u then return false
  else if (u == 0x3F || u == 0x2D) && (isSeparator next || next == 0 || (inFlow && isFlowUnit next)) then
    return false
  else
    let t ← plainLoop indent inFlow (2 * c.input.size + 2) ⟨[], c.place, c.place, none⟩
    if t.isEmpty then return false
    else
      setScalar t
      return true

/-! ## Quoted scalars -/

/-- Reads a single quoted scalar on after its quote. -/
def singleLoop : Nat → Text → Nat → Nat → Step Text
  | 0, _, _, _ => malformed
  | fuel + 1, read, start, stop => do
    let c ← get
    let u := c.unitAt 0
    if u == 0 then malformed
    else if u == 0x27 then
      let piece ← captureQuoted start c.place
      if c.unitAt 1 == 0x27 then
        set { c with place := c.place + 2 }
        singleLoop fuel (read ++ piece) (c.place + 1) (c.place + 2)
      else
        set { c with place := c.place + 1 }
        return read ++ piece
    else if isBreak u then
      let piece ← captureQuoted start stop
      let breaks ← skipSeparation false
      let place := (← get).place
      singleLoop fuel (read ++ piece ++ folded breaks) place place
    else if c.place == c.lineStart && c.atDocumentMark then malformed
    else
      set { c with place := c.place + 1 }
      singleLoop fuel read start (if isGap u then stop else c.place + 1)

/-- Reads a single quoted scalar. -/
def readSingleQuoted : Step Bool := do
  let c ← get
  if c.unitAt 0 == 0x27 then
    set { c with place := c.place + 1 }
    let t ← singleLoop (c.input.size + 1) [] (c.place + 1) (c.place + 1)
    setScalar t
    return true
  else return false

/-- The text of a one-letter escape. -/
def escapeText? (u : UInt16) : Option Text :=
  if u == 0x30 then some [0x00]
  else if u == 0x61 then some [0x07]
  else if u == 0x62 then some [0x08]
  else if u == 0x74 || u == 0x09 then some [0x09]
  else if u == 0x6E then some [0x0A]
  else if u == 0x76 then some [0x0B]
  else if u == 0x66 then some [0x0C]
  else if u == 0x72 then some [0x0D]
  else if u == 0x65 then some [0x1B]
  else if u == 0x20 || u == 0x22 || u == 0x2F || u == 0x5C then some [u]
  else if u == 0x4E then some [0x85]
  else if u == 0x5F then some [0xA0]
  else if u == 0x4C then some [0x2028]
  else if u == 0x50 then some [0x2029]
  else none

/-- The number of hexadecimal digits of an escape. -/
def hexLength? (u : UInt16) : Option Nat :=
  if u == 0x78 then some 2
  else if u == 0x75 then some 4
  else if u == 0x55 then some 8
  else none

/-- The text of a code point. -/
def codePointText (n : Nat) : Text :=
  if n < 0x10000 then [n.toUInt16]
  else [(0xD800 + (n - 0x10000) / 0x400).toUInt16, (0xDC00 + (n - 0x10000) % 0x400).toUInt16]

/-- Reads a double quoted scalar on after its quote. -/
def doubleLoop : Nat → Text → Nat → Nat → Step Text
  | 0, _, _, _ => malformed
  | fuel + 1, read, start, stop => do
    let c ← get
    let u := c.unitAt 0
    if u == 0 then malformed
    else if u == 0x22 then
      let piece ← captureQuoted start c.place
      set { c with place := c.place + 1 }
      return read ++ piece
    else if u == 0x5C then
      let piece ← captureQuoted start c.place
      let e := c.unitAt 1
      if isBreak e then
        set { c with place := c.place + 1 }
        let _ ← skipSeparation false
        let place := (← get).place
        doubleLoop fuel (read ++ piece) place place
      else
        match escapeText? e, hexLength? e with
        | some t, _ =>
          set { c with place := c.place + 2 }
          doubleLoop fuel (read ++ piece ++ t) (c.place + 2) (c.place + 2)
        | none, some length =>
          match Number.digitsIn? 16 (c.slice (c.place + 2) (c.place + 2 + length)) with
          | some n =>
            if c.input.size < c.place + 2 + length then malformed
            else
              set { c with place := c.place + 2 + length }
              doubleLoop fuel (read ++ piece ++ codePointText n) (c.place + 2 + length)
                (c.place + 2 + length)
          | none => malformed
        | none, none => malformed
    else if isBreak u then
      let piece ← captureQuoted start stop
      let breaks ← skipSeparation false
      let place := (← get).place
      doubleLoop fuel (read ++ piece ++ folded breaks) place place
    else if c.place == c.lineStart && c.atDocumentMark then malformed
    else
      set { c with place := c.place + 1 }
      doubleLoop fuel read start (if isGap u then stop else c.place + 1)

/-- Reads a double quoted scalar. -/
def readDoubleQuoted : Step Bool := do
  let c ← get
  if c.unitAt 0 == 0x22 then
    set { c with place := c.place + 1 }
    let t ← doubleLoop (c.input.size + 1) [] (c.place + 1) (c.place + 1)
    setScalar t
    return true
  else return false

/-! ## Block scalars -/

/-- What happens to the line ends at the end of a block scalar. -/
inductive Chomping where
  | clip
  | strip
  | keep
  deriving DecidableEq, Repr

/-- The header of a block scalar: its chomping and its explicit indentation. -/
def blockHeader : Nat → Option Chomping → Option Nat → Step (Option Chomping × Option Nat)
  | 0, chomping, width => return (chomping, width)
  | fuel + 1, chomping, width => do
    let u ← peek
    if u == 0x2B || u == 0x2D then
      if chomping.isSome then malformed
      else
        let _ ← advance
        blockHeader fuel (some (if u == 0x2B then .keep else .strip)) width
    else if Text.isDigit u then
      if u == 0x30 || width.isSome then malformed
      else
        let _ ← advance
        blockHeader fuel chomping (some (u.toNat - 0x30))
    else return (chomping, width)

/-- The state of reading a block scalar. -/
structure BlockState where
  read : Text
  hasContent : Bool
  known : Bool
  indent : Int
  blankLines : Nat
  moreIndented : Bool

/-- Skips the spaces in front of a line of a block scalar, up to its indentation once known. -/
def blockIndent (known : Bool) (indent : Int) : Nat → Step Unit
  | 0 => return
  | fuel + 1 => do
    let c ← get
    if (!known || (c.lineIndent : Int) < indent) && c.unitAt 0 == 0x20 then
      set { c with place := c.place + 1, lineIndent := c.lineIndent + 1 }
      blockIndent known indent fuel

/-- The line ends in front of a line of content. -/
def blockBreaks (folding : Bool) (s : BlockState) (u : UInt16) : Text × Bool :=
  let kept := List.replicate (if s.hasContent then s.blankLines + 1 else s.blankLines) 0x0A
  if !folding then (kept, false)
  else if isGap u then (kept, true)
  else if s.moreIndented then (List.replicate (s.blankLines + 1) 0x0A, false)
  else if s.blankLines = 0 then (if s.hasContent then [0x20] else [], false)
  else (List.replicate s.blankLines 0x0A, false)

/-- Reads the lines of a block scalar. -/
def blockLoop (folding : Bool) (chomping : Chomping) : Nat → BlockState → Step Text
  | 0, s => return s.read
  | fuel + 1, s => do
    if (← peek) == 0 then return s.read
    else
      readBreak
      modify fun c => { c with lineIndent := 0 }
      blockIndent s.known s.indent (← bound)
      let c ← get
      let u := c.unitAt 0
      let indent := if !s.known && s.indent < (c.lineIndent : Int) then (c.lineIndent : Int) else s.indent
      if isBreak u then
        blockLoop folding chomping fuel { s with indent, blankLines := s.blankLines + 1 }
      else if (c.lineIndent : Int) < indent then
        match chomping with
        | .keep =>
          return s.read ++
            List.replicate (if s.hasContent then s.blankLines + 1 else s.blankLines) 0x0A
        | .clip => return s.read ++ (if s.hasContent then [0x0A] else [])
        | .strip => return s.read
      else
        let (breaks, moreIndented) := blockBreaks folding s u
        let _ ← skipWhile (fun v => !isBreak v) (← bound)
        let line ← capture c.place (← get).place
        blockLoop folding chomping fuel
          ⟨s.read ++ breaks ++ line, true, true, indent, 0, moreIndented⟩

/-- Reads a block scalar. -/
def readBlockScalar (indent : Int) : Step Bool := do
  let u ← peek
  if u == 0x7C || u == 0x3E then
    let _ ← advance
    let n ← bound
    let (chomping, width) ← blockHeader n none none
    let before ← peek
    let v ← skipWhile isGap n
    let _ ← if isGap before && v == 0x23 then skipWhile (fun w => !isBreak w) n else pure v
    let known := width.isSome
    let textIndent : Int :=
      match width with
      | some w => indent + w - 1
      | none => indent
    let t ← blockLoop (u == 0x3E) (chomping.getD .clip) n ⟨[], false, known, textIndent, 0, false⟩
    setScalar t
    return true
  else return false

/-! ## Properties and aliases -/

/-- A unit that a tag name may hold. -/
def isTagUnit (u : UInt16) : Bool :=
  Text.isWord u || u == 0x2D || u == 0x25 || u == 0x23 || u == 0x3B || u == 0x2F || u == 0x3F ||
    u == 0x3A || u == 0x40 || u == 0x26 || u == 0x3D || u == 0x2B || u == 0x24 || u == 0x2C ||
    u == 0x5F || u == 0x2E || u == 0x21 || u == 0x7E || u == 0x2A || u == 0x27 || u == 0x28 ||
    u == 0x29 || u == 0x5B || u == 0x5D

/-- The tag of a handle and a name. -/
def tagOf? (handles : List (Text × Text)) (handle name : Text) : Option Tag :=
  match handles.find? fun h => h.1 == handle with
  | some h => some (.named (h.2 ++ name))
  | none =>
    if handle == [0x21] then
      if name.isEmpty then some .nonSpecific else some (.named (0x21 :: name))
    else if handle == [0x21, 0x21] then some (.named (standardTag ++ name))
    else none

/-- Reads a tag. -/
def readTag : Step Bool := do
  let c ← get
  if c.unitAt 0 != 0x21 then return false
  else if c.tag != .none then malformed
  else if c.unitAt 1 == 0x3C then
    set { c with place := c.place + 2 }
    let u ← skipWhile (· != 0x3E) c.input.size
    let stop := (← get).place
    let name := c.slice (c.place + 2) stop
    if u == 0 || !name.all isTagUnit then malformed
    else
      modify fun d => { d with place := stop + 1, tag := .named name }
      return true
  else
    set { c with place := c.place + 1 }
    let _ ← skipWhile (fun u => !isSeparator u) c.input.size
    let stop := (← get).place
    let whole := c.slice c.place stop
    -- the handle ends at the last exclamation mark
    let name := (whole.reverse.takeWhile (· != 0x21)).reverse
    let handle := whole.take (whole.length - name.length)
    if name.any isFlowUnit || !name.all isTagUnit then malformed
    else
      match tagOf? c.handles handle name with
      | some tag =>
        modify fun d => { d with tag }
        return true
      | none => malformed

/-- The name at the place of an anchor or an alias, without its mark. -/
def readName : Step Text := do
  let c ← get
  set { c with place := c.place + 1 }
  let _ ← skipWhile (fun u => !isSeparator u && !isFlowUnit u) c.input.size
  let name := c.slice (c.place + 1) (← get).place
  if name.isEmpty then malformed else return name

/-- Reads an anchor. -/
def readAnchor : Step Bool := do
  let c ← get
  if c.unitAt 0 != 0x26 then return false
  else if c.anchor.isSome then malformed
  else
    let name ← readName
    modify fun d => { d with anchor := some name }
    return true

/-- Reads an alias. -/
def readAlias : Step Bool := do
  let c ← get
  if c.unitAt 0 != 0x2A then return false
  else
    let name ← readName
    match c.anchors.find? fun a => a.1 == name with
    | none => malformed
    | some a =>
      modify fun d => { d with result := a.2 }
      let _ ← skipSeparation true
      return true

end Yaml

end CloneScan
