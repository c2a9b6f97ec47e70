import CloneScan.Grammar.ScriptType

/-!
# Classes and patterns

The heads and members of classes, and the patterns that bind names.
-/

namespace CloneScan

namespace Grammar.Script

/-! ## Patterns -/

/-- An element of a pattern of an object. -/
def objectBindingElement (self : Self) : P Unit := do
  let _ ← optional "..."
  let named ← boundNameIsNext
  propertyName self
  if !named || (← nextIs ":") then
    want ":"
    pass (self .binding)
  initializer self

/-- An element of a pattern of an array. -/
def arrayBindingElement (self : Self) : P Unit := do
  if !(← nextIs ",") then
    let _ ← optional "..."
    pass (self .binding)
    initializer self

/-- A name or a pattern that is bound. -/
def binding (self : Self) : P Shape := do
  match (← token).text with
  | "[" =>
    advance
    allowIn (separated .arrayBinding (arrayBindingElement self))
    want "]"
    return .value
  | "\x7b" =>
    advance
    allowIn (separated .objectBinding (objectBindingElement self))
    want "\x7d"
    return .value
  | _ =>
    boundName
    return .name

/-! ## Members -/

/-- A method behind its name. -/
def methodRest (self : Self) (inYield inAwait : Bool) : P Unit := do
  signature self inYield inAwait
  functionBody self inYield inAwait

/-- A property behind its name and question mark.  The flag tells whether there was a question mark. -/
def propertyRest (self : Self) (marked : Bool) : P Unit := do
  if !marked && !(← broken) then
    let _ ← optional "!"
  let typed ← nextIs ":"
  typeAnnotation self
  withIn false (withFlow false false (initializer self))
  if (← nextIs "@") && !(← broken) then blame
  else if ← nextIs "(" then
    blame
    advance
  else if typed && !(← canEnd) then blame
  else endStatement

/-- A constructor, if one stands here. -/
def constructorIf (self : Self) : P Bool := do
  let l ← token
  let quoted := ((← source).slice (l.start + 1) (l.stop - 1)) == Text.ofString "constructor"
  if l.text == "constructor" || (l.number == NodeKind.string && quoted &&
      (← nextSatisfies (nextIs "("))) then
    advance
    methodRest self false false
    return true
  else return false

/-- A member of a class. -/
def classMember (self : Self) : P Unit := do
  if ← optional ";" then return
  else
    let found ← modifiers self ⟨true, true, true⟩
    let isAsync := found.contains "async"
    if (← nextIs "static") && (← nextSatisfies (nextIs "\x7b")) then
      advance
      withFlow false true (block self false)
    else if ← contextualModifier "get" then accessor self false
    else if ← contextualModifier "set" then accessor self false
    else if ← constructorIf self then return
    else if ← startsIndexSignature then indexSignature self
    else if (← plainPropertyIsNext) || (← atAny ["*", "["]) then
      let generator ← optional "*"
      propertyName self
      let marked ← optional "?"
      if generator || (← atAny ["(", "<"]) then methodRest self generator isAsync
      else propertyRest self marked
    else if !found.isEmpty then
      missing NodeKind.identifier
      propertyRest self false
    else advance

/-- The clauses that say what a class or an interface extends and implements. -/
def heritage (self : Self) : P Unit := do
  if ← heritageIsNext then
    elements .heritage do
      advance
      separated .heritageTypes do
        pass (self .leftHand)
        typeArguments self

/-- A class behind its modifiers. -/
def classRest (self : Self) (exported : Bool) : P Unit := do
  want "class"
  let bare ←
    if ← nextIs "implements" then nextSatisfies nameLikeIsNext else pure false
  if !bare && (← boundNameIsNext) then boundName
  typeParameters self
  withAwait (exported || (← get).inAwait) do
    heritage self
    if ← expect "\x7b" then
      elements .classMembers (classMember self)
      want "\x7d"

/-- A function behind its modifiers.  The flag tells whether it is an expression, or a declaration that
needs no name. -/
def functionRest (self : Self) (expression nameless isAsync : Bool) : P Unit := do
  want "function"
  let generator ← optional "*"
  if expression then
    withFlow (generator || (← get).inYield) (isAsync || (← get).inAwait) do
      if ← boundNameIsNext then boundName
    signature self generator isAsync
    functionBlock self generator isAsync false
  else
    if !nameless || (← boundNameIsNext) then boundName
    signature self generator isAsync
    functionBody self generator isAsync

end Grammar.Script

end CloneScan
