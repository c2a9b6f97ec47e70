import CloneScan.Yaml.ScalarReader

/-!
# Reading YAML nodes

Block and flow collections and the nodes inside them.  A reader of nodes takes the reader of inner
nodes as an argument; `readNode` ties the knot with a bound on the depth.
-/

namespace CloneScan

namespace Yaml

/-- Where a node stands. -/
inductive Context where
  | flowIn
  | flowOut
  | blockIn
  | blockOut
  deriving DecidableEq, Repr

/-- A reader of nodes: the indentation of the parent, the context, whether blanks before the node may
be skipped, and whether a block collection may start on the line of its parent.  It tells whether
there was a node. -/
abbrev NodeReader := Int → Context → Bool → Bool → Step Bool

/-- A mapping in the making, with the keys that came from a merge and may still be set. -/
structure MappingState where
  fields : Fields
  overridable : List Text

/-- No field yet. -/
def MappingState.empty : MappingState := ⟨[], []⟩

/-- Takes in the fields of a merged mapping that are not set yet. -/
def mergeInto (m : MappingState) (source : Value) : Step MappingState :=
  match source.parts? with
  | none => malformed
  | some fields =>
    return fields.foldl
      (fun m f =>
        if Json.hasField m.fields f.1 then m
        else ⟨Json.setField m.fields f.1 f.2, f.1 :: m.overridable⟩) m

/-- Whether a list holds a list, which no key may do. -/
def hasInnerList (v : Value) : Bool :=
  match v with
  | .array items => items.any fun i => match i with | .array _ => true | _ => false
  | _ => false

/-- Stores a pair of a mapping.  A merge key takes in one mapping or several; a key may be set only
once. -/
def storePair (m : MappingState) (keyTag : Tag) (key value : Value) : Step MappingState :=
  if hasInnerList key then malformed
  else if keyTag == .merge then
    match value with
    | .array items => items.foldlM mergeInto m
    | v => mergeInto m v
  else
    let name := key.display
    if !m.overridable.contains name && Json.hasField m.fields name then malformed
    else return ⟨Json.setField m.fields name value, m.overridable.filter (· != name)⟩

/-- Makes a finished collection the result, with the properties that it had before. -/
def setCollection (tag : Tag) (anchor : Option Text) (kind : Kind) (v : Value) : Step Unit :=
  modify fun c => { c with tag, anchor, kind := some kind, result := v }

/-! ## Block collections -/

/-- Reads the entries of a block sequence; the items so far are given last first. -/
def sequenceLoop (self : NodeReader) (indent : Int) : Nat → List Value → Step (List Value)
  | 0, items => return items.reverse
  | fuel + 1, items => do
    let c ← get
    if c.unitAt 0 == 0 then return items.reverse
    else if c.firstTab.isSome then malformed
    else if c.unitAt 0 != 0x2D || !isSeparator (c.unitAt 1) then return items.reverse
    else
      let _ ← advance
      let breaks ← skipSeparation true
      if breaks != 0 && ((← get).lineIndent : Int) ≤ indent then
        sequenceLoop self indent fuel (.null :: items)
      else
        let line := (← get).line
        let _ ← self indent .blockIn false true
        let item := (← get).result
        let _ ← skipSeparation true
        let d ← get
        if (d.line == line || indent < (d.lineIndent : Int)) && d.unitAt 0 != 0 then malformed
        else if (d.lineIndent : Int) < indent then return (item :: items).reverse
        else sequenceLoop self indent fuel (item :: items)

/-- Reads a block sequence. -/
def readBlockSequence (self : NodeReader) (indent : Int) : Step Bool := do
  let c ← get
  if c.firstTab.isSome || c.unitAt 0 != 0x2D || !isSeparator (c.unitAt 1) then return false
  else
    let items ← sequenceLoop self indent (c.input.size + 1) []
    setCollection c.tag c.anchor .sequence (.array items)
    return true

/-- The state of reading a block mapping: the pairs so far, the key in work, whether it was announced
by a question mark, and whether any pair was seen. -/
structure BlockMapping where
  pairs : MappingState
  keyTag : Tag
  key : Value
  explicitKey : Bool
  detected : Bool

/-- How reading a block mapping ended. -/
inductive BlockMappingEnd where
  /-- The mapping is complete. -/
  | done (m : BlockMapping)
  /-- There was a single node and no mapping. -/
  | single

/-- Reads the entries of a block mapping. -/
def mappingLoop (self : NodeReader) (indent flowIndent : Int) :
    Nat → BlockMapping → Step BlockMappingEnd
  | 0, m => return .done m
  | fuel + 1, m => do
    let c ← get
    let u := c.unitAt 0
    let line := c.line
    if u == 0 then return .done m
    else if !m.explicitKey && c.firstTab.isSome then malformed
    else
      -- the key, after which the value is to be read; `none` when reading is over
      let step : Option (BlockMapping × Bool) ⊕ BlockMappingEnd ←
        if (u == 0x3F || u == 0x3A) && isSeparator (c.unitAt 1) then do
          if u == 0x3F then
            let pairs ← if m.explicitKey then storePair m.pairs m.keyTag m.key .null else pure m.pairs
            let _ ← advance
            pure (.inl (some (⟨pairs, .none, .null, true, true⟩, true)))
          else if m.explicitKey then
            let _ ← advance
            pure (.inl (some ({ m with explicitKey := false }, true)))
          else malformed
        else do
          if !(← self flowIndent .flowOut false true) then pure (.inr (.done m))
          else if (← get).line == line then
            let v ← skipWhile isGap c.input.size
            if v == 0x3A then
              let w ← advance
              if !isSeparator w then malformed
              else
                let d ← get
                let pairs ← if m.explicitKey then storePair m.pairs m.keyTag m.key .null else pure m.pairs
                pure (.inl (some (⟨pairs, d.tag, d.result, false, true⟩, false)))
            else if m.detected then malformed
            else pure (.inr .single)
          else if m.detected then malformed
          else pure (.inr .single)
      match step with
      | .inr result => return result
      | .inl none => return .done m
      | .inl (some (m, allowCompact)) =>
        let d ← get
        let m ←
          if d.line == line || indent < (d.lineIndent : Int) then do
            let found ← self indent .blockOut true allowCompact
            let value := (← get).result
            let m ←
              if m.explicitKey then pure (if found then { m with key := value } else m)
              else do
                let pairs ← storePair m.pairs m.keyTag m.key (if found then value else .null)
                pure { m with pairs, keyTag := .none, key := .null }
            let _ ← skipSeparation true
            pure m
          else pure m
        let e ← get
        if (e.line == line || indent < (e.lineIndent : Int)) && e.unitAt 0 != 0 then malformed
        else if (e.lineIndent : Int) < indent then return .done m
        else mappingLoop self indent flowIndent fuel m

/-- Reads a block mapping, or the single node that stands in its place. -/
def readBlockMapping (self : NodeReader) (indent flowIndent : Int) : Step Bool := do
  let c ← get
  if c.firstTab.isSome then return false
  else
    match ← mappingLoop self indent flowIndent (c.input.size + 1) ⟨.empty, .none, .null, false, false⟩ with
    | .single =>
      modify fun d => { d with tag := c.tag, anchor := c.anchor }
      return true
    | .done m =>
      let pairs ← if m.explicitKey then storePair m.pairs m.keyTag m.key .null else pure m.pairs
      if m.detected then
        setCollection c.tag c.anchor .mapping (.object pairs.fields)
        return true
      else return false

/-! ## Flow collections -/

/-- A flow collection in the making. -/
structure FlowState where
  items : List Value
  pairs : MappingState

/-- Reads the entries of a flow collection up to its closing unit. -/
def flowLoop (self : NodeReader) (indent : Int) (isMapping : Bool) (closer : UInt16) :
    Nat → Bool → FlowState → Step FlowState
  | 0, _, _ => malformed
  | fuel + 1, expectsEntry, s => do
    let _ ← skipSeparation true
    let c ← get
    let u := c.unitAt 0
    if u == 0 then malformed
    else if u == closer then
      let _ ← advance
      return s
    else if !expectsEntry || u == 0x2C then malformed
    else
      let explicit := u == 0x3F && isSeparator (c.unitAt 1)
      if explicit then
        let _ ← advance
        let _ ← skipSeparation true
      let line := (← get).line
      let _ ← self indent .flowIn false true
      let d ← get
      let keyTag := d.tag
      let key := d.result
      let _ ← skipSeparation true
      let e ← get
      let (isPair, value) ←
        if (explicit || e.line == line) && e.unitAt 0 == 0x3A then do
          let _ ← advance
          let _ ← skipSeparation true
          let _ ← self indent .flowIn false true
          pure (true, (← get).result)
        else pure (explicit, Value.null)
      let s ←
        if isMapping then do
          let pairs ← storePair s.pairs keyTag key value
          pure { s with pairs }
        else if isPair then do
          let one ← storePair .empty keyTag key value
          pure { s with items := .object one.fields :: s.items }
        else pure { s with items := key :: s.items }
      let _ ← skipSeparation true
      if (← peek) == 0x2C then
        let _ ← advance
        flowLoop self indent isMapping closer fuel true s
      else flowLoop self indent isMapping closer fuel false s

/-- Reads a flow collection. -/
def readFlowCollection (self : NodeReader) (indent : Int) : Step Bool := do
  let c ← get
  let u := c.unitAt 0
  if u == 0x5B || u == 0x7B then
    let isMapping := u == 0x7B
    let _ ← advance
    let s ← flowLoop self indent isMapping (if isMapping then 0x7D else 0x5D) (c.input.size + 1) true
      ⟨[], .empty⟩
    setCollection c.tag c.anchor (if isMapping then .mapping else .sequence)
      (if isMapping then .object s.pairs.fields else .array s.items.reverse)
    return true
  else return false

/-! ## Nodes -/

/-- How a node is indented against its parent. -/
def indentAgainst (c : Cursor) (parent : Int) : Ordering :=
  compare (c.lineIndent : Int) parent

/-- Reads the tag and the anchor of a node.  The result is the indentation of what follows, whether
it is on a new line, and whether a block collection may follow. -/
def propertyLoop (parent : Int) (blockStyles : Bool) :
    Nat → Ordering → Bool → Bool → Step (Ordering × Bool × Bool)
  | 0, status, newLine, blocks => return (status, newLine, blocks)
  | fuel + 1, status, newLine, blocks => do
    let found ← if ← readTag then pure true else readAnchor
    if !found then return (status, newLine, blocks)
    else if (← skipSeparation true) != 0 then
      propertyLoop parent blockStyles fuel (indentAgainst (← get) parent) true blockStyles
    else propertyLoop parent blockStyles fuel status newLine false

/-- Notes the result under the anchor of the node, if it has one. -/
def noteAnchor : Step Unit :=
  modify fun c =>
    match c.anchor with
    | none => c
    | some name => { c with anchors := (name, c.result) :: c.anchors }

/-- Gives the node the value that its tag asks for. -/
def resolveNode : Step Unit := do
  let c ← get
  match c.tag with
  | .none | .nonSpecific | .merge => noteAnchor
  | .plain =>
    match c.result with
    | .string t =>
      let (v, tag) := resolvePlain t
      set { c with result := v, tag }
      noteAnchor
    | _ => noteAnchor
  | .named name =>
    match resolveTagged name c.kind c.result with
    | none => malformed
    | some v =>
      set { c with result := v, tag := if name == standardTag ++ Text.ofString "merge" then .merge else c.tag }
      noteAnchor

/-- Reads something where it is allowed; elsewhere there is nothing. -/
def allowed (condition : Bool) (read : Step Bool) : Step Bool :=
  if condition then read else return false

/-- Reads what a node is made of; tells whether there was anything. -/
def readContent (self : NodeReader) (parent : Int) (context : Context) (status : Ordering)
    (blocks : Bool) : Step Bool := do
  let c ← get
  let isFlow := context == .flowIn || context == .flowOut
  let flowIndent := if isFlow then parent else parent + 1
  let blockIndent : Int := (c.place : Int) - c.lineStart
  match status with
  | .gt =>
    if ← allowed blocks (readBlockSequence self blockIndent) then return true
    else if ← allowed blocks (readBlockMapping self blockIndent flowIndent) then return true
    else if ← readFlowCollection self flowIndent then return true
    else if ← allowed (!isFlow) (readBlockScalar flowIndent) then return true
    else if ← readSingleQuoted then return true
    else if ← readDoubleQuoted then return true
    else if ← readAlias then
      let d ← get
      if d.tag != .none || d.anchor.isSome then malformed else return true
    else if ← readPlain flowIndent (context == .flowIn) then
      modify fun d => { d with tag := if d.tag == .none then .plain else d.tag }
      return true
    else return false
  | .eq => allowed blocks (readBlockSequence self blockIndent)
  | .lt => return false

/-- Reads a node with its properties. -/
def composeNode (self : NodeReader) : NodeReader := fun parent context seek compact => do
  modify fun c => { c with tag := .none, anchor := none, kind := none, result := .null }
  let blockStyles := context == .blockIn || context == .blockOut
  let (status, newLine) ←
    if seek then do
      if (← skipSeparation true) != 0 then pure (indentAgainst (← get) parent, true)
      else pure (Ordering.gt, false)
    else pure (Ordering.gt, false)
  let (status, newLine, blocks) ←
    if status == .gt then propertyLoop parent blockStyles (← bound) status newLine blockStyles
    else pure (status, newLine, blockStyles)
  let blocks := blocks && (newLine || compact)
  let found ←
    if status == .gt || context == .blockOut then readContent self parent context status blocks
    else pure false
  let c ← get
  let isNode := c.tag != .none || c.anchor.isSome || found
  resolveNode
  return isNode

/-- Reads a node, at most so many levels deep. -/
def readNode : Nat → NodeReader
  | 0 => fun _ _ _ _ => malformed
  | depth + 1 => composeNode (readNode depth)

end Yaml

end CloneScan
