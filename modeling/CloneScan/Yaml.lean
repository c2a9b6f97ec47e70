import CloneScan.Yaml.Node

/-!
# Loading YAML

A stream of at most one document, with its directives.  An empty stream has no value.
-/

namespace CloneScan

namespace Yaml

/-- What a stream holds. -/
inductive Document where
  | empty
  | value (v : Value)

/-- The pieces of a text between blanks. -/
def argumentsOf (t : Text) : List Text :=
  ((t.splitBy isGap).filter fun p => !p.isEmpty).takeWhile fun p => p.head? != some 0x23

/-- Whether a version is one that can be read: any of the first generation. -/
def isKnownVersion (t : Text) : Bool :=
  match t.splitBy (· == 0x2E) with
  | [major, minor] =>
    !major.isEmpty && major.all Text.isDigit && !minor.isEmpty && minor.all Text.isDigit &&
      Number.digitsIn? 10 major == some 1
  | _ => false

/-- A handle of tags: an exclamation mark, two of them, or a word between two. -/
def isHandle (t : Text) : Bool :=
  match t with
  | [0x21] => true
  | 0x21 :: rest =>
    rest.getLast? == some 0x21 && rest.dropLast.all fun u => Text.isWord u || u == 0x2D
  | _ => false

/-- Takes in one directive. -/
def directive (seen : Bool) (name : Text) (arguments : List Text) : Step Bool := do
  if name == Text.ofString "YAML" then
    match arguments with
    | [version] => if seen || !isKnownVersion version then malformed else return true
    | _ => malformed
  else if name == Text.ofString "TAG" then
    match arguments with
    | [handle, target] =>
      let c ← get
      if !isHandle handle || (c.handles.any fun h => h.1 == handle) then malformed
      else
        set { c with handles := (handle, target) :: c.handles }
        return seen
    | _ => malformed
  else return seen

/-- Reads the directives of a document; tells whether there was one. -/
def directiveLoop : Nat → Bool → Bool → Step Bool
  | 0, found, _ => return found
  | fuel + 1, found, version => do
    let _ ← skipSeparation true
    let c ← get
    if 0 < c.lineIndent || c.unitAt 0 != 0x25 then return found
    else
      set { c with place := c.place + 1 }
      let _ ← skipWhile (fun u => !isBreak u) c.input.size
      let line := c.slice (c.place + 1) (← get).place
      let name := line.takeWhile fun u => !isGap u
      if name.isEmpty then malformed
      else
        if (← peek) != 0 then readBreak
        let version ← directive version name (argumentsOf (line.drop name.length))
        directiveLoop fuel true version

/-- Reads one document. -/
def readDocument : Step Value := do
  let n ← bound
  let hasDirectives ← directiveLoop n false false
  let _ ← skipSeparation true
  let c ← get
  if c.lineIndent == 0 && c.unitAt 0 == 0x2D && c.unitAt 1 == 0x2D && c.unitAt 2 == 0x2D then
    set { c with place := c.place + 3 }
    let _ ← skipSeparation true
  else if hasDirectives then malformed
  let d ← get
  let _ ← readNode n ((d.lineIndent : Int) - 1) .blockOut false true
  let v := (← get).result
  let _ ← skipSeparation true
  let e ← get
  if e.place == e.lineStart && e.atDocumentMark then
    if e.unitAt 0 == 0x2E then
      set { e with place := e.place + 3 }
      let _ ← skipSeparation true
    return v
  else if e.unitAt 0 != 0 then malformed
  else return v

/-- The text without a byte order mark and with a line end at its end. -/
def prepare (t : Text) : Text :=
  let t := if t.isEmpty || isBreak (t.getLastD 0) then t else t ++ [0x0A]
  match t with
  | 0xFEFF :: rest => rest
  | t => t

/-- The document of a stream; nothing when the stream is malformed or holds several documents. -/
def load? (t : Text) : Option Document :=
  let t := prepare t
  if t.contains 0 then none
  else
    let cursor : Cursor :=
      ⟨t.toArray, 0, 0, 0, 0, none, .none, none, none, .null, [], []⟩
    let run : Step Document := do
      readIndent (← bound)
      if (← peek) == 0 then return .empty
      else
        let v ← readDocument
        if (← peek) != 0 then malformed
        else return .value v
    (run cursor).map (·.1)

end Yaml

end CloneScan
