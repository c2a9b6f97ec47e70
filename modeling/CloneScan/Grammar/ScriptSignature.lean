import CloneScan.Grammar.ScriptStart

/-!
# Signatures

What functions, methods and types of functions share: modifiers, names of properties, parameters, types
of results, and bodies.
-/

namespace CloneScan

namespace Grammar.Script

/-- The results of a reader as long as it has one, at most `fuel` of them. -/
def collectUpTo {α : Type} (p : P (Option α)) : Nat → P (List α)
  | 0 => return []
  | fuel + 1 => do
    match ← p with
    | none => return []
    | some a => return a :: (← collectUpTo p fuel)

/-- Runs an inner rule for what it reads alone. -/
def pass (p : P Shape) : P Unit := do
  let _ ← p
  return

/-! ## Modifiers -/

/-- Where modifiers stand: whether decorators may stand among them, whether `const` is one of them, and
whether `static` before a brace starts a block. -/
structure ModifierPlace where
  decorators : Bool
  constants : Bool
  staticBlocks : Bool

/-- A decorator if one is next. -/
def decoratorIf (self : Self) : P Bool := do
  if ← optional "@" then
    pass (withDecorator true (self .leftHand))
    return true
  else return false

/-- A modifier if one is next. -/
def modifierIf (place : ModifierPlace) (seenStatic : Bool) : P (Option String) := do
  let w := (← token).text
  let follows : P Bool := do
    advance
    if ← broken then return false else canFollowModifier
  if !modifierWords.contains w then return none
  else if w == "const" && place.constants then
    if ← attempt follows then return some w else return none
  else if place.staticBlocks && w == "static" && (← nextSatisfies (nextIs "\x7b")) then return none
  else if seenStatic && w == "static" then return none
  else if ← attempt passModifier then return some w
  else return none

/-- Modifiers, of which only one may be `static`. -/
def plainModifiers (place : ModifierPlace) : Nat → Bool → P (List String)
  | 0, _ => return []
  | fuel + 1, seenStatic => do
    match ← modifierIf place seenStatic with
    | none => return []
    | some w => return w :: (← plainModifiers place fuel (seenStatic || w == "static"))

/-- Decorators and modifiers.  The decorators may stand first or behind some modifiers.  Gives the
modifiers, with a decorator shown as its mark. -/
def modifiers (self : Self) (place : ModifierPlace) : P (List String) := do
  let fuel := (← source).size + 1
  let decorators : P (List String) := do
    if place.decorators then
      collectUpTo (do if ← decoratorIf self then return some "@" else return none) fuel
    else return []
  let first ← decorators
  let leading ← plainModifiers place fuel false
  let second ← if leading.isEmpty then pure [] else decorators
  let trailing ← if second.isEmpty then pure [] else plainModifiers place fuel (leading.contains "static")
  return first ++ leading ++ second ++ trailing

/-- Modifiers without decorators. -/
def noDecorators : ModifierPlace := ⟨false, false, false⟩

/-- Modifiers with decorators. -/
def withDecorators : ModifierPlace := ⟨true, false, false⟩

/-! ## Names and types -/

/-- The name of a property. -/
def propertyName (self : Self) : P Unit := do
  let l ← token
  if l.number == NodeKind.string || l.number == NodeKind.numeric ||
      l.number == NodeKind.bigNumeric || l.number == NodeKind.privateIdentifier then take
  else if l.text == "[" then
    advance
    pass (allowIn (self .expression))
    want "]"
  else anyName

/-- The type behind a colon, if there is one. -/
def typeAnnotation (self : Self) : P Unit := do
  if ← optional ":" then pass (self .type)

/-- The value behind an equals sign, if there is one. -/
def initializer (self : Self) : P Unit := do
  if ← optional "=" then pass (self (.assignment true))

/-- A type parameter. -/
def typeParameter (self : Self) : P Unit := do
  let _ ← modifiers self ⟨false, true, false⟩
  name
  if ← optional "extends" then
    let typed ← startsType
    if typed || !(← startsExpression) then pass (self .type) else pass (self .binary)
  if ← optional "=" then pass (self .type)

/-- Type parameters, if there are any. -/
def typeParameters (self : Self) : P Unit := do
  if ← nextIs "<" then bracketed .typeParameters "<" ">" (typeParameter self)

/-- Arguments for type parameters, if there are any. -/
def typeArguments (self : Self) : P Unit := do
  if ← nextIs "<" then bracketed .typeArguments "<" ">" (pass (self .type))

/-- A type, or the claim that a parameter has one. -/
def resultType (self : Self) : P Shape := do
  if ← nameIsNext then
    let _ ← attempt do
      name
      if (← nextIs "is") && !(← broken) then
        advance
        return true
      else return false
    self .type
  else self .type

/-- The type of a result behind a mark, if there is one.  The flag tells whether an arrow may stand for
the mark. -/
def returnType (self : Self) (mark : String) (arrows : Bool) : P (Option Shape) := do
  let present ←
    if mark == "=>" then
      want mark
      pure true
    else if ← optional ":" then pure true
    else if arrows && (← nextIs "=>") then
      blame
      advance
      pure true
    else pure false
  if present then return some (← withConditional false (resultType self)) else return none

/-- The type of a result behind a colon, if there is one. -/
def resultAnnotation (self : Self) : P Unit := do
  let _ ← returnType self ":" false
  return

/-! ## Parameters -/

/-- The name of a parameter or its pattern.  A modifier that is no name is passed over. -/
def parameterName (self : Self) (modified : Bool) : P Unit := do
  let start := (← token).full
  pass (self .binding)
  if (← token).full == start && !modified && (← modifierIsNext) then advance

/-- A parameter.  Decorators are read with the meaning of `await` outside the function.  The flag
tells whether the parameter is only tried; then a missing name is a failure. -/
def parameter (self : Self) (outerAwait tried : Bool) : P Bool := do
  let found ← withAwait outerAwait (modifiers self withDecorators)
  if ← nextIs "this" then
    takeAs NodeKind.identifier
    typeAnnotation self
    return true
  else
    let _ ← optional "..."
    let named ← boundNameIsNext <||> atAny ["[", "\x7b"]
    if tried && !named then return false
    else
      parameterName self !found.isEmpty
      let _ ← optional "?"
      typeAnnotation self
      initializer self
      return true

/-- Parameters without their parentheses. -/
def parameterList (self : Self) (inYield inAwait tried : Bool) : P Bool := do
  let outer := (← get).inAwait
  withFlow inYield inAwait (separated? .parameters (parameter self outer tried))

/-- Parameters between parentheses.  Tells whether they were there. -/
def parameters (self : Self) (inYield inAwait : Bool) : P Bool := do
  if ← expect "(" then
    let _ ← parameterList self inYield inAwait false
    want ")"
    return true
  else return false

/-- The parameters and the type of the result of a function. -/
def signature (self : Self) (inYield inAwait : Bool) : P Unit := do
  typeParameters self
  let _ ← parameters self inYield inAwait
  resultAnnotation self

/-! ## Bodies -/

/-- A block.  The flag tells whether its statements are read even if the brace is missing. -/
def block (self : Self) (loose : Bool) : P Unit := do
  let opened ← expect "\x7b"
  if opened || loose then
    elements .block (pass (self .statement))
    want "\x7d"
    if ← nextIs "=" then
      blame
      advance

/-- The body of a function. -/
def functionBlock (self : Self) (inYield inAwait loose : Bool) : P Unit :=
  withFlow inYield inAwait (withDecorator false (block self loose))

/-- The body of a function, or the end of a declaration without one. -/
def functionBody (self : Self) (inYield inAwait : Bool) : P Unit := do
  if (← nextIs "\x7b") || !(← canEnd) then functionBlock self inYield inAwait false
  else endStatement

/-- An accessor behind its modifier.  The flag tells whether it is a member of a type. -/
def accessor (self : Self) (inType : Bool) : P Unit := do
  propertyName self
  signature self false false
  if inType && !(← nextIs "\x7b") then endTypeMember else functionBody self false false

/-- The parameters of an index and the type of its values. -/
def indexSignature (self : Self) : P Unit := do
  bracketed .parameters "[" "]" do
    let _ ← parameter self false false
    return
  typeAnnotation self
  endTypeMember

/-- Whether an index stands here and not a computed name. -/
def startsIndexSignature : P Bool := do
  if ← nextIs "[" then
    lookAhead do
      advance
      if ← atAny ["...", "]"] then return true
      else
        let modified ← modifierIsNext
        let named ← nameIsNext
        if modified || named then
          advance
          if modified && (← nameIsNext) then return true
          else if ← atAny [":", ","] then return true
          else if ← optional "?" then atAny [":", ",", "]"]
          else return false
        else return false
  else return false

end Grammar.Script

end CloneScan
