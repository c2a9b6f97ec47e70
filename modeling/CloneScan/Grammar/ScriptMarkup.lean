import CloneScan.Grammar.ScriptExpression

/-!
# Markup

Elements of markup among the expressions of a script.  An element whose closing tag is that of the
element around it is closed by a tag that is missing.
-/

namespace CloneScan

namespace Grammar.Script

/-! ## Tags -/

/-- Takes a name in markup, in which hyphens may stand. -/
def markupName : P Unit := do
  setToken ((← token).asMarkupName (← source))
  let _ ← takeName (← nameLikeIsNext)
  return

/-- The texts of the leaves from a number on. -/
def leafTexts (count : Nat) : P (List Text) := do
  let s ← source
  let leaves := (← get).leaves
  return (leaves.toList.drop count).map fun leaf => s.slice leaf.start leaf.stop

/-- The name of an element: a name with dots, or with a name space.  Gives its parts. -/
def tagName : P (List Text) := do
  let count := (← get).leaves.size
  if ← nextIs "this" then takeAs (numberOf "this") else markupName
  if ← optional ":" then markupName
  else
    many do
      if ← optional "." then
        nameBehindDot false
        return true
      else return false
  leafTexts count

/-- What stands between braces in markup.  The flag tells whether it is the value of an attribute. -/
def markupExpression (self : Self) (inExpression : Bool) : P Unit := do
  if ← expect "\x7b" then
    if !(← nextIs "\x7d") then
      if !inExpression then
        let _ ← optional "..."
      pass (self .expression)
    if inExpression then want "\x7d"
    else if ← nextIs "\x7d" then advanceMarkup
    else blame

/-- The value of an attribute, if there is one. -/
def attributeValue (self : Self) : P Unit := do
  if ← nextIs "=" then
    setToken (attributeLexeme (← source) (← token).stop)
    if ← atNumber NodeKind.string then take
    else if ← nextIs "\x7b" then markupExpression self true
    else if ← nextIs "<" then pass (self (.element true false))
    else blame

/-- An attribute, or attributes that are spread. -/
def markupAttribute (self : Self) : P Unit := do
  if ← optional "\x7b" then
    want "..."
    pass (self .expression)
    want "\x7d"
  else
    markupName
    if ← optional ":" then markupName
    attributeValue self

/-- What an opening tag opens. -/
inductive Opening where
  | fragment
  | element (name : List Text)
  | closed

/-- An opening tag, or the tag of an element without children.  The flag tells whether the element
stands among expressions. -/
def openingTag (self : Self) (inExpression : Bool) : P Opening := do
  want "<"
  if ← nextIs ">" then
    advanceMarkup
    return .fragment
  else
    let name ← tagName
    if (← read).types then typeArguments self
    elements .attributes (markupAttribute self)
    if ← nextIs ">" then
      advanceMarkup
      return .element name
    else
      want "/"
      if ← nextIs ">" then
        if inExpression then advance else advanceMarkup
      else blame
      return .closed

/-- The end of a closing tag; what follows is text if the element stands among markup. -/
def closingEnd (inExpression : Bool) : P Unit := do
  if ← nextIs ">" then
    if inExpression then advance else advanceMarkup
  else blame

/-! ## Elements -/

/-- The children of an element with a name.  Gives the last of them, if an element that has the
closing tag of this element was read there. -/
def children (self : Self) (name : Option (List Text)) : P (Option Shape) := do
  insideList .children do
    manyFrom none fun _ => do
      let l := markupLexeme (← source) (← token).full
      setToken l
      if l.number == NodeKind.markupText || l.number == NodeKind.markupBlank then
        let isGap (u : UInt16) : Bool := isBlankUnit u || LineTable.isBreak u
        let text := (← source).slice l.start l.stop
        let start := l.start + (text.takeWhile isGap).length
        pushLeaf ⟨.token NodeKind.markupText, l.full, start, l.stop⟩
        setToken (markupLexeme (← source) l.stop)
        return (none, true)
      else if l.text == "\x7b" then
        markupExpression self false
        return (none, true)
      else if l.text == "<" then
        let child ← self (.element false false)
        match child with
        | .element opening closing .. =>
          if opening != closing && name == some closing then return (some child, false)
          else return (none, true)
        | _ => return (none, true)
      else
        if l.number == NodeKind.endOfFile then blame
        return (none, false)

/-- Notes a missing name among the leaves read before, at an offset. -/
def missingAmong (count offset : Nat) : P Unit := do
  blame
  modify fun r =>
    { r with
      leaves := (r.leaves.extract 0 count).push
        ⟨.token NodeKind.identifier, offset, offset, offset⟩ ++ r.leaves.extract count r.leaves.size }

/-- An element without what may follow it. -/
def singleElement (self : Self) (inExpression : Bool) : P Shape := do
  match ← openingTag self inExpression with
  | .closed => return .leftHand
  | .fragment =>
    let _ ← children self none
    want "</"
    closingEnd inExpression
    return .leftHand
  | .element name =>
    match ← children self (some name) with
    | some (.element _ closing count offset) =>
      missingAmong count offset
      return .element name closing count offset
    | _ =>
      let count := (← get).leaves.size
      let offset := (← token).full
      want "</"
      let closing ← tagName
      closingEnd (inExpression || name != closing)
      return .element name closing count offset

/-- An element.  Another one behind it, where only one can stand, is read too, with a missing comma
between the two. -/
def element (self : Self) (inExpression operand : Bool) : P Shape := do
  let first ← singleElement self inExpression
  if inExpression && !operand && (← nextIs "<") then
    let more ← attempt do
      missing (numberOf ",")
      pass (self (.element true false))
      return true
    return if more then .value else first
  else return first

end Grammar.Script

end CloneScan
