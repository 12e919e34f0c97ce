import ComponentRegistry.Script.Expression

/-!
# Functions, classes and variables

The declarations that both scripts and typed scripts have.
-/

namespace ComponentRegistry.Script

open Script.Parser

/-! ## Functions -/

/-- A function from its keyword on; `named` functions need a name. Answers the name. -/
def functionLike (g : Grammar) (async anonymous : Bool) : Parser (Option String) := do
  expectWord "function"
  let generator ← eat "*"
  let rules (p : Place) : Place :=
    if anonymous then { p with yields := generator, awaits := async } else p
  let name ← do
    if ← atIdentifier then pure (some (← within rules identifier))
    else if anonymous then pure none
    else unexpected
  discard (functionRest g async generator)
  return name

/-! ## Classes -/

/-- A key that says what its member is. -/
inductive MemberKey where
  | computed
  | hidden (name : String)
  | named (name : String)
  deriving DecidableEq, Repr

/-- The key of a member with these modifiers; a hidden name says itself who has access. -/
def memberKey (g : Grammar) (marks : List String) : Parser MemberKey := do
  let t ← token
  if t.kind == .privateName then
    advance
    noteIf (marks.any accessWords.contains)
    return .hidden t.text
  if ← propertyKey g then return .computed
  return .named (if t.kind == .word || t.kind == .string then t.text else "")

/-- A field after its name. -/
def fieldRest (g : Grammar) : Parser Unit := do
  if (← dialect).typed then
    if !(← eat "?") then
      if (← at_ "!") && !(← afterBreak) then advance
  typeAnnotation g
  within (fun p => { p with yields := false, awaits := false, returns := false }) do
    discard (initializer g)
  semicolon

def classMember (g : Grammar) : Parser Unit := do
  discard (decorators g)
  let marks ← modifiers
  let static_ := marks.contains "static"
  if (← atWord "static") && (← peekIs "\x7b") then
    noteIf !marks.isEmpty
    advance
    within (fun p => { p with yields := false, awaits := true, returns := false }) (block g)
    return
  let accessor ← do
    if (← atAnyWord ["get", "set"]) then holdsAhead (do
      advance
      return (← token).isKeyName || (← at_ "["))
    else pure false
  if accessor then
    keyword
    let key ← memberKey g marks
    noteIf (key == .hidden "constructor")
    noteIf (!static_ && key == .named "constructor")
    noteIf (static_ && key == .named "prototype")
    discard (functionRest g false false)
    return
  if ← opensIndexSignature then
    if (← dialect).typed then
      indexSignature g
      semicolon
      return
  let async := marks.contains "async"
  let generator ← eat "*"
  let key ← memberKey g marks
  noteIf (key == .hidden "constructor")
  noteIf (static_ && key == .named "prototype")
  let optional ← do
    if (← dialect).typed && (← at_ "?") then pure true else pure false
  if optional && ((← peekIs "(") || (← peekIs "<")) then advance
  if generator || async || (← atAny ["(", "<"]) then
    let builds := !static_ && key == .named "constructor"
    noteIf (builds && (generator || async || (← at_ "<")))
    let this ← functionRest g async generator
    noteIf (builds && this)
  else
    noteIf (key == .named "constructor")
    fieldRest g

/-- Types that a class fulfils. -/
def heritage (g : Grammar) : Parser Unit := do
  if ← eatWord "extends" then
    discard g.leftHand
    if (← dialect).typed && (← atAny ["<", "<<"]) then typeArguments g
    noteIf (← at_ ",")
  if (← dialect).typed && (← eatWord "implements") then
    let step : Parser Bool := do
      typeReference g
      eat ","
    repeatWhile step (← room)

/-- A class from its keyword on. -/
def classLike (g : Grammar) (anonymous : Bool) : Parser Unit := do
  expectWord "class"
  let named ← do
    if (← atIdentifier) then
      if ← atWord "implements" then holdsAhead (do
        advance
        return (← atAnyWord ["extends", "implements"]) || (← atAny ["\x7b", "<"]))
      else pure true
    else pure false
  if named then discard identifier
  else if !anonymous then unexpected
  typeParameters g
  heritage g
  expect "\x7b"
  let step : Parser Bool := do
    if (← at_ "\x7d") || (← atFinish) then return false
    if ← eat ";" then return true
    classMember g
    return true
  repeatWhile step (← room)
  expect "\x7d"

/-! ## Variables -/

/-- One declared variable. -/
structure Declarator where
  pattern : Pattern
  initialized : Bool

def declarator (g : Grammar) : Parser Declarator := do
  let p ← g.pattern
  if (← dialect).typed then
    if p.simple && (← at_ "!") && !(← afterBreak) then advance
  typeAnnotation g
  let initialized ← do
    if ← eat "=" then discard (g.assignment true); pure true else pure false
  return ⟨p, initialized⟩

/-- A constant or a pattern needs a value, unless the file only declares. -/
def checkInitialized (constant : Bool) (d : Declarator) : Parser Unit := do
  if !d.initialized && !(← read).ambient then
    noteIf (constant || !d.pattern.simple)

def declarators (g : Grammar) : Parser (List Declarator) := do
  let first ← declarator g
  let step : Parser (Option Declarator) := do
    if ← eat "," then return some (← declarator g)
    return none
  return first :: (← collect step (← room) [])

/-- Variables after their keyword, as a statement. Answers the names. -/
def variableStatement (g : Grammar) (constant : Bool) : Parser (List String) := do
  let ds ← within withIn (declarators g)
  ds.forM (checkInitialized constant)
  semicolon
  return (ds.map fun d => d.pattern.names).flatten

/-- `using` begins a declaration here. -/
def atUsing : Parser Bool := do
  if ← atWord "using" then
    holdsAhead do
      advance
      return (← atIdentifier) && !(← afterBreak) && !(← atWord "of") && !(← atWord "in")
  else if ← atWord "await" then
    holdsAhead do
      advance
      if !(← atWord "using") || (← afterBreak) then return false
      advance
      return (← atIdentifier) && !(← afterBreak)
  else return false

/-- A declaration of a resource; each is a name with a value. -/
def usingDeclarators (g : Grammar) (needValue : Bool) : Parser Unit := do
  discard (eatWord "await")
  expectWord "using"
  let ds ← declarators g
  ds.forM fun d => noteIf (!d.pattern.simple || (needValue && !d.initialized))

end ComponentRegistry.Script
