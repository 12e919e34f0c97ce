import ComponentRegistry.Script.Parser

/-!
# Bindings, parameters and their types

Patterns that bind names, the parameters of functions, and the type annotations that both may
carry.
-/

namespace ComponentRegistry.Script

open Script.Parser

/-- A type annotation, where the dialect has them. -/
def typeAnnotation (g : Grammar) : Parser Unit := do
  if (← dialect).typed then
    if ← eat ":" then within (fun p => { p with plainTypes := false }) g.type

/-- A key of an object, a pattern or a class; the flag says that it is computed. -/
def propertyKey (g : Grammar) : Parser Bool := do
  if ← eat "[" then
    discard (within (fun p => { p with allowIn := true }) (g.assignment true))
    expect "]"
    return true
  let t ← token
  if t.kind == .word || t.kind == .string || t.kind == .number || t.kind == .bigInt then
    advance
    return false
  unexpected

/-- A default value, if there is one. -/
def initializer (g : Grammar) : Parser Bool := do
  if ← eat "=" then
    discard (within (fun p => { p with allowIn := true }) (g.assignment true))
    return true
  return false

/-- A pattern with an optional default. -/
def patternWithDefault (g : Grammar) : Parser Pattern := do
  let p ← g.pattern
  discard (initializer g)
  return p

/-- What follows the last three dots of a pattern: it ends there. -/
def restEnd (close : String) : Parser Unit := do
  if ← at_ "," then note; advance
  if !(← at_ close) then throw (.malformed "rest element")

/-- One member of an object pattern. -/
def objectPatternMember (g : Grammar) : Parser (List String) := do
  if ← eat "..." then
    let p ← g.pattern
    noteIf !p.simple
    noteIf (← at_ ",")
    noteIf !(← at_ "\x7d")
    return p.names
  let t ← token
  if t.isIdentifier then
    let after ← peek
    if after.isPunctuator "," || after.isPunctuator "\x7d" || after.isPunctuator "=" then
      let name ← identifier
      discard (initializer g)
      return [name]
  discard (propertyKey g)
  expect ":"
  return (← patternWithDefault g).names

/-- One element of an array pattern. -/
def arrayPatternElement (g : Grammar) : Parser (List String) := do
  if ← at_ "," then return []
  if ← eat "..." then
    let p ← g.pattern
    noteIf (← at_ ",")
    noteIf !(← at_ "]")
    return p.names
  return (← patternWithDefault g).names

/-- A pattern without a type annotation. -/
def bindingPattern (g : Grammar) : Parser Pattern := do
  if ← eat "\x7b" then
    let (ms, _) ← separated "\x7d" (objectPatternMember g)
    expect "\x7d"
    return ⟨false, ms.flatten⟩
  if ← eat "[" then
    let (es, _) ← separated "]" (arrayPatternElement g)
    expect "]"
    return ⟨false, es.flatten⟩
  return ⟨true, [← identifier]⟩

/-! ## Modifiers and decorators -/

/-- A member's name may begin here. -/
def canFollowModifier : Parser Bool := do
  let t ← token
  return t.isKeyName || (← atAny ["[", "\x7b", "*", "..."])

/-- The current word is a modifier of what follows. -/
def atModifier : Parser Bool := do
  let t ← token
  if t.kind != .word || !modifierWords.contains t.text then return false
  let typed := (← dialect).typed
  if !typed && !(["static", "async", "accessor"].contains t.text) then return false
  match t.text with
  | "const" => peekIsWord "enum"
  | "export" | "default" | "in" | "out" => return false
  | "static" => holdsAhead (do advance; canFollowModifier)
  | _ => holdsAhead (do advance; return !(← afterBreak) && (← canFollowModifier))

/-- The modifiers that say who has access. -/
def accessWords : List String := ["private", "protected", "public"]

/-- Take a modifier; each stands only once, and only one of them says who has access. -/
def modifierAfter (seen : List String) : Parser String := do
  let t ← token
  keyword
  noteIf (seen.contains t.text || (accessWords.contains t.text && seen.any accessWords.contains))
  return t.text

def modifiersAfter : Nat → List String → Parser (List String)
  | 0, seen => return seen.reverse
  | fuel + 1, seen => do
    let t ← token
    let ends := t.isWord "static" && (seen.contains "static" || (← peekIs "\x7b"))
    if ends || !(← atModifier) then return seen.reverse
    modifiersAfter fuel ((← modifierAfter seen) :: seen)

/-- The modifiers here; a second `static` is a name, and a static block's keyword is left. -/
def modifiers : Parser (List String) := do modifiersAfter (← room) []

/-- All modifiers are among `allowed`. -/
def checkModifiers (allowed marks : List String) : Parser Unit :=
  noteIf (marks.any fun m => !allowed.contains m)

/-- Decorators; the answer says whether there are any. -/
def decorators (g : Grammar) : Parser Bool := do
  if !(← at_ "@") then return false
  let step : Parser Bool := do
    if ← eat "@" then discard g.leftHand; return true
    return false
  repeatWhile step (← room)
  return true

/-! ## Parameters -/

/-- One parameter; the flag says that it takes the rest of the arguments. -/
def parameter (g : Grammar) : Parser Bool := do
  discard (decorators g)
  if (← dialect).typed then discard modifiers
  if ← eat "..." then
    discard g.pattern
    if (← dialect).typed then noteIf (← eat "?")
    typeAnnotation g
    noteIf (← at_ "=")
    discard (initializer g)
    return true
  discard g.pattern
  if (← dialect).typed then discard (eat "?")
  typeAnnotation g
  discard (initializer g)
  return false

/-- The type of `this` before the parameters, if it is given. -/
def thisParameter (g : Grammar) : Parser Bool := do
  if !(← dialect).typed || !(← atWord "this") then return false
  advance
  typeAnnotation g
  if !(← at_ ")") then expect ","
  return true

/-- Parameters between parentheses; only the last one may take the rest.  Answers whether `this`
is given a type among them. -/
def parameters (g : Grammar) : Parser Bool := do
  expect "("
  let this ← thisParameter g
  let (ps, comma) ← separated ")" (parameter g)
  noteIf ((ps.dropLast).any id)
  noteIf (comma && ps.getLast? == some true && !(← read).ambient)
  expect ")"
  return this

/-! ## Type parameters and arguments -/

/-- A less-than sign that opens a list of types. -/
def openAngle : Parser Unit := do
  if (← atAny ["<<", "<<=", "<="]) then
    rescan fun here => .of .punctuator "<" (here.drop 1)
  expect "<"

def typeParameter (g : Grammar) : Parser Unit := do
  let isModifier : Parser Bool := do
    if (← atWord "const") || (← atWord "in") then keyword; return true
    if ← atWord "out" then
      let next ← peek
      if next.kind == .word && !next.isWord "extends" then keyword; return true
    return false
  repeatWhile isModifier 8
  discard identifier
  if ← eatWord "extends" then within (fun p => { p with plainTypes := false }) g.type
  if ← eat "=" then within (fun p => { p with plainTypes := false }) g.type

/-- The parameters of a generic declaration, if there are any. -/
def typeParameters (g : Grammar) : Parser Unit := do
  if (← dialect).typed && (← at_ "<") then
    advance
    let (ps, _) ← separated ">" (typeParameter g)
    noteIf ps.isEmpty
    expect ">"

/-- Types between angle brackets. -/
def typeArguments (g : Grammar) : Parser Unit := do
  openAngle
  let (ts, _) ← separated ">" (within (fun p => { p with plainTypes := false }) g.type)
  noteIf ts.isEmpty
  expect ">"

/-- A result type, which may also be a claim about a parameter. -/
def resultType (g : Grammar) : Parser Unit := do
  let t ← token
  if t.isIdentifier then
    let isClaim ← holdsAhead (do advance; return (← atWord "is") && !(← afterBreak))
    if isClaim then advance; keyword
  within (fun p => { p with plainTypes := false }) g.type

/-- A result type after its colon, if there is one. -/
def typeOfResult (g : Grammar) : Parser Bool := do
  if (← dialect).typed && (← at_ ":") then advance; resultType g; return true
  return false

end ComponentRegistry.Script
