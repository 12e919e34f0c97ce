import ComponentRegistry.Script.TypedDeclaration
import ComponentRegistry.Script.Element

/-!
# Statements

Statements of blocks and files, without the ones that import and export.
-/

namespace ComponentRegistry.Script

open Script.Parser

/-- An expression between parentheses. -/
def condition (g : Grammar) : Parser Unit := do
  expect "("
  discard (within withIn g.expression)
  expect ")"

/-- A statement that is the body of another one. -/
def body (g : Grammar) : Parser Unit := discard (g.statement true)

def ifStatement (g : Grammar) : Parser Unit := do
  keyword
  condition g
  body g
  if ← eatWord "else" then body g

def whileStatement (g : Grammar) : Parser Unit := do
  keyword
  condition g
  body g

def doStatement (g : Grammar) : Parser Unit := do
  keyword
  body g
  expectWord "while"
  condition g
  discard (eat ";")

/-! ## Loops -/

/-- The rest of a loop with three parts, at its first semicolon. -/
def countedLoop (g : Grammar) (awaited : Bool) : Parser Unit := do
  expect ";"
  if !(← at_ ";") && !(← at_ ")") then discard (within withIn g.expression)
  expect ";"
  if !(← at_ ")") then discard (within withIn g.expression)
  expect ")"
  noteIf awaited
  body g

/-- The rest of a loop over members or elements, if it is one. -/
def memberLoop? (g : Grammar) (awaited : Bool) : Parser Bool := do
  if ← eatWord "in" then
    discard (within withIn g.expression)
    expect ")"
    noteIf awaited
    body g
    return true
  if ← eatWord "of" then
    discard (element g)
    expect ")"
    body g
    return true
  return false

/-- `let` begins a declaration in the head of a loop. -/
def atLoopLet : Parser Bool := do
  if !(← atWord "let") then return false
  let next ← peek
  return (next.kind == .word && next.text != "in") || next.isPunctuator "[" ||
    next.isPunctuator "\x7b"

def forStatement (g : Grammar) : Parser Unit := do
  keyword
  let awaited ← do
    if ← atWord "await" then
      noteIf !(← read).awaits
      advance
      pure true
    else pure false
  expect "("
  if ← at_ ";" then
    countedLoop g awaited
    return
  if (← atWord "var") || (← atWord "const") || (← atLoopLet) then
    let constant ← atWord "const"
    keyword
    let ds ← within withoutIn (declarators g)
    if !(← memberLoop? g awaited) then
      ds.forM (checkInitialized constant)
      countedLoop g awaited
    return
  if ← atUsing then
    within withoutIn (usingDeclarators g false)
    noteIf (← atWord "in")
    if !(← memberLoop? g awaited) then countedLoop g awaited
    return
  let startsLet ← atWord "let"
  let asyncOf ← do
    if (← atWord "async") && !(← token).escaped then peekIsWord "of" else pure false
  let e ← within withoutIn g.expression
  if ← atWord "of" then noteIf ((asyncOf && !awaited) || startsLet)
  if (← atWord "in") || (← atWord "of") then
    target e
    discard (memberLoop? g awaited)
  else countedLoop g awaited

/-! ## Other statements -/

def switchStatement (g : Grammar) : Parser Unit := do
  keyword
  condition g
  expect "\x7b"
  let inner : Parser Bool := do
    if (← at_ "\x7d") || (← atFinish) || (← atAnyWord ["case", "default"]) then return false
    discard (g.statement false)
    return true
  let step : Parser Bool := do
    if ← eatWord "case" then
      discard (within withIn g.expression)
      expect ":"
    else if ← eatWord "default" then expect ":"
    else return false
    repeatWhile inner (← room)
    return true
  repeatWhile step (← room)
  expect "\x7d"

def tryStatement (g : Grammar) : Parser Unit := do
  keyword
  block g
  let caught ← eatWord "catch"
  if caught then
    if ← eat "(" then
      discard g.pattern
      typeAnnotation g
      expect ")"
    block g
  let finally_ ← eatWord "finally"
  if finally_ then block g
  if !caught && !finally_ then throw (.expected "catch" (← token).text)

def throwStatement (g : Grammar) : Parser Unit := do
  keyword
  noteIf (← afterBreak)
  discard (within withIn g.expression)
  semicolon

def returnStatement (g : Grammar) : Parser Unit := do
  keyword
  if !(← canEnd) then discard (within withIn g.expression)
  semicolon
  noteIf !(← read).returns

/-- `break` and `continue`, maybe to a label. -/
def jumpStatement : Parser Unit := do
  keyword
  if !(← canEnd) then discard identifier
  semicolon

/-- An expression as a statement, or a label with its statement. -/
def expressionStatement (g : Grammar) : Parser Unit := do
  let e ← within withIn g.expression
  if let .name _ := e then
    if ← eat ":" then
      discard (g.statement true)
      return
  semicolon

/-- `let` where it may also be a name. -/
def letStatement (g : Grammar) (alone : Bool) : Parser Unit := do
  let next ← peek
  let isOperator := (next.kind == .punctuator &&
      ((binaryPrecedence? next.text).isSome || assignmentOperators.contains next.text)) ||
    next.isWord "in" || next.isWord "instanceof"
  if isOperator || next.isPunctuator "." || next.isPunctuator "(" || next.isPunctuator ";" ||
      (alone && !next.isPunctuator "[") then
    expressionStatement g
  else
    keyword
    discard (variableStatement g false)
    noteIf alone

/-- A function as a statement; one that stands alone is a plain one. -/
def functionStatement (g : Grammar) (async alone : Bool) : Parser Statement := do
  let generator ← ahead (do advance; at_ "*")
  let name ← g.function async false
  noteIf (alone && (async || generator))
  match name with
  | some n => return .function n
  | none => return .other

def ofDeclared : Declared → Statement
  | .function (some n) => .function n
  | _ => .other

/-- Any statement but those that import and export. -/
def plainStatement (g : Grammar) (alone : Bool) : Parser Statement := do
  let t ← token
  if t.kind == .punctuator then
    match t.text with
    | "\x7b" => block g; return .other
    | ";" => advance; return .other
    | _ => expressionStatement g; return .other
  if t.kind != .word || t.escaped then
    expressionStatement g
    return .other
  match t.text with
  | "if" => ifStatement g; return .other
  | "do" => doStatement g; return .other
  | "while" | "with" => whileStatement g; return .other
  | "for" => forStatement g; return .other
  | "break" | "continue" => jumpStatement; return .other
  | "switch" => switchStatement g; return .other
  | "throw" => throwStatement g; return .other
  | "try" => tryStatement g; return .other
  | "debugger" => keyword; semicolon; return .other
  | "return" => returnStatement g; return .other
  | "class" => g.class_ false; noteIf alone; return .other
  | "function" => functionStatement g false alone
  | "const" =>
    if (← dialect).typed && (← peekIsWord "enum") then
      keyword
      enumDeclaration g
      return .other
    keyword
    discard (variableStatement g true)
    noteIf alone
    return .other
  | "var" => keyword; discard (variableStatement g false); return .other
  | "let" => letStatement g alone; return .other
  | "async" =>
    let next ← peek
    if next.isWord "function" && !next.afterBreak then
      keyword
      functionStatement g true alone
    else if (← dialect).typed && (← startsTypedDeclaration) then
      return ofDeclared (← typedDeclaration g)
    else
      expressionStatement g
      return .other
  | _ =>
    if ← atUsing then
      usingDeclarators g true
      semicolon
      noteIf alone
      return .other
    if (← dialect).typed && (← startsTypedDeclaration) then
      return ofDeclared (← typedDeclaration g)
    expressionStatement g
    return .other

end ComponentRegistry.Script
