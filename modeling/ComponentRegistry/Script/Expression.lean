import ComponentRegistry.Script.Types
import ComponentRegistry.Script.Target

/-!
# Expressions

Operands and the operators around them, literals of objects and arrays, calls, templates, and arrow
functions, which are told from parenthesised expressions by looking ahead.
-/

namespace ComponentRegistry.Script

open Script.Parser

def withIn (p : Place) : Place := { p with allowIn := true }

def withoutIn (p : Place) : Place := { p with allowIn := false }

/-- Rules inside a function. -/
def inFunction (async generator : Bool) (p : Place) : Place :=
  { p with allowIn := true, yields := generator, awaits := async, returns := true }

/-- An expression without commas. -/
def element (g : Grammar) : Parser Expr := within withIn (g.assignment true)

/-! ## Functions -/

/-- Statements between braces. -/
def block (g : Grammar) : Parser Unit := do
  expect "\x7b"
  let step : Parser Bool := do
    if (← at_ "\x7d") || (← atFinish) then return false
    discard (g.statement false)
    return true
  repeatWhile step (← room)
  expect "\x7d"

/-- Parameters, result type and body; where types are allowed the body may be missing.  Answers
whether `this` is given a type. -/
def functionRest (g : Grammar) (async generator : Bool) : Parser Bool :=
  within (inFunction async generator) do
    let this ← callSignature g
    if (← at_ "\x7b") || !(← dialect).typed then
      within (fun p => { p with ambient := false }) (block g)
    else semicolon
    return this

/-! ## Literals -/

/-- The parts of a template after its head. -/
def templateRest (g : Grammar) (tagged : Bool) : Parser Unit := do
  let step : Parser Bool := do
    discard (within withIn g.expression)
    if !(← at_ "\x7d") then unexpected
    rescan fun here => templateTail (here.drop 1) false
    noteIf (!tagged && (← token).escaped)
    if ← atKind (.template true) then advance; return false
    if ← atKind (.template false) then advance; return true
    unexpected
  repeatWhile step (← room)

/-- A template; one that a function reads may hold escapes without a meaning. -/
def template (g : Grammar) (tagged : Bool) : Parser Unit := do
  let t ← token
  noteIf (!tagged && t.escaped)
  match t.kind with
  | .template true => advance
  | .template false => advance; templateRest g tagged
  | _ => unexpected

def atTemplate : Parser Bool := do
  match (← token).kind with
  | .template _ => return true
  | _ => return false

/-- A word that says how the member after it is meant. -/
def memberMark (w : String) (sameLine : Bool) : Parser Bool := do
  if !(← atWord w) then return false
  holdsAhead do
    advance
    if sameLine && (← afterBreak) then return false
    return (← token).isKeyName || (← atAny (if w = "async" then ["[", "*"] else ["["]))

def objectMember (g : Grammar) : Parser Member := do
  if ← eat "..." then return .spread (← element g)
  let t ← token
  let async ← memberMark "async" true
  let accessor ← do
    if ← memberMark "get" false then pure true else memberMark "set" false
  if async then keyword
  if accessor then keyword
  let generator ← if accessor then pure false else eat "*"
  let plain := !async && !accessor && !generator
  if plain && t.isIdentifier then
    let after ← peek
    if after.isPunctuator "," || after.isPunctuator "\x7d" || after.isPunctuator "=" then
      let start ← place
      discard identifier
      if ← eat "=" then
        discard (element g)
        modify fun s => { s with openDefaults := start :: s.openDefaults }
        return .shorthand (some start)
      return .shorthand none
  discard (propertyKey g)
  if !plain || (← atAny ["(", "<"]) then
    within (inFunction async generator) do
      discard (callSignature g)
      block g
    return .method
  expect ":"
  return .keyed (← element g)

def objectLiteral (g : Grammar) : Parser Expr := do
  expect "\x7b"
  let (ms, _) ← separated "\x7d" (objectMember g)
  expect "\x7d"
  return .object ms

def arrayItem (g : Grammar) : Parser Item := do
  if ← at_ "," then return .hole
  if ← eat "..." then return .spread (← element g)
  return .value (← element g)

def arrayLiteral (g : Grammar) : Parser Expr := do
  expect "["
  let (items, comma) ← separated "]" (arrayItem g)
  expect "]"
  return .array items comma

/-! ## Arguments -/

def argument (g : Grammar) : Parser Unit := do
  discard (eat "...")
  discard (element g)

def arguments (g : Grammar) : Parser Unit := do
  expect "("
  discard (separated ")" (argument g))
  expect ")"

/-- An operator that begins with `>`, put together from the text. -/
def angleOperator : Parser String := do
  let s ← get
  match spelled? angleOperators s.here with
  | some (op, _) => return op
  | none => return ">"

/-- Something stands here that cannot begin an expression. -/
def cannotStartExpression : Parser Bool := do
  let t ← token
  match t.kind with
  | .punctuator =>
    return !(["(", "[", "\x7b", "+", "-", "~", "!", "++", "--", "<", "/", "/=", "@"].contains
      t.text)
  | .word =>
    return ["break", "case", "catch", "const", "continue", "debugger", "default", "do", "else",
      "enum", "export", "extends", "finally", "for", "if", "in", "instanceof", "return", "switch",
      "throw", "try", "var", "while", "with"].contains t.text
  | .finish => return true
  | .markupText => return true
  | .invalid => return true
  | _ => return false

/-- What stands after type arguments shows that they are such, and no comparison. -/
def endsTypeArguments : Parser Bool := do
  if (← at_ "(") || (← atTemplate) then return true
  if (← atAny ["<", ">", "+", "-"]) then return false
  if ← afterBreak then return true
  let t ← token
  let isOperator := (t.kind == .punctuator || t.kind == .word) &&
    (binaryPrecedence? t.text).isSome && (t.text != "in" || (← read).allowIn)
  return isOperator || (← cannotStartExpression)

/-- Type arguments inside an expression. -/
def expressionTypeArguments (g : Grammar) : Parser Unit := do
  openAngle
  let (ts, _) ← separated ">" (within (fun p => { p with plainTypes := false }) g.type)
  noteIf ts.isEmpty
  if (← angleOperator) == ">=" then unexpected
  expect ">"
  if !(← endsTypeArguments) then unexpected

/-! ## Primary expressions -/

def parenthesised (g : Grammar) : Parser Expr := do
  expect "("
  if ← at_ ")" then throw (.malformed "parenthesised expression")
  let e ← within withIn g.expression
  expect ")"
  return .parens e

/-- `import` inside an expression. -/
def importExpression (g : Grammar) : Parser Expr := do
  keyword
  if ← eat "." then
    if ← eatWord "meta" then return .other
    if (← atAnyWord ["source", "defer"]) then keyword
    else unexpected
  expect "("
  if ← at_ ")" then unexpected
  discard (element g)
  if ← eat "," then
    if !(← at_ ")") then
      discard (element g)
      discard (eat ",")
  expect ")"
  return .other

def primary (g : Grammar) : Parser Expr := do
  let t ← token
  match t.kind with
  | .word =>
    if t.isIdentifier then
      if t.text == "async" && !t.escaped then
        let next ← peek
        if next.isWord "function" && !next.afterBreak then
          advance
          discard (g.function true true)
          return .other
      return .name (← identifier)
    match t.text with
    | "this" | "true" | "false" | "null" => keyword; return .other
    | "function" => discard (g.function false true); return .other
    | "class" => g.class_ true; return .other
    | "import" => importExpression g
    | "super" =>
      keyword
      if (← atAny [".", "[", "("]) then return .other else unexpected
    | _ => unexpected
  | .string | .number | .bigInt => advance; return .other
  | .template _ => template g false; return .other
  | .punctuator =>
    match t.text with
    | "(" => parenthesised g
    | "[" => arrayLiteral g
    | "\x7b" => objectLiteral g
    | "/" | "/=" =>
      rescan fun here => regexTail (here.drop 1) false
      if ← atKind .regex then advance; return .other else unexpected
    | "@" =>
      discard (decorators g)
      if ← atWord "class" then g.class_ true; return .other else unexpected
    | _ => unexpected
  | _ => unexpected

/-! ## Properties and calls -/

/-- The name after a point. -/
def propertyName : Parser Unit := do
  if (← token).kind == .privateName then advance else discard anyName

/-- One more property, template or mark after `e`; `chain` says that a `?.` came before. -/
def memberStep (g : Grammar) (calls : Bool) (e : Expr) (chain : Bool) :
    Parser (Option (Expr × Bool)) := do
  let typed := (← dialect).typed
  if ← eat "." then
    propertyName
    return some (if chain then .other else .property, chain)
  if ← at_ "?." then
    if !calls then throw (.malformed "optional chain after new")
    let next ← peek
    if next.isPunctuator "(" || next.isPunctuator "<" then return none
    advance
    if ← eat "[" then
      discard (within withIn g.expression)
      expect "]"
    else if ← atTemplate then throw (.malformed "template in an optional chain")
    else propertyName
    return some (.other, true)
  if ← at_ "[" then
    advance
    discard (within withIn g.expression)
    expect "]"
    return some (if chain then .other else .property, chain)
  if typed && (← at_ "!") && !(← afterBreak) then
    advance
    return some (.typed e, chain)
  if ← atTemplate then
    noteIf chain
    template g true
    return some (.other, chain)
  if typed && (← atAny ["<", "<<"]) then
    match ← attempt (expressionTypeArguments g) with
    | some _ =>
      if ← atTemplate then
        noteIf chain
        template g true
      return some (.other, chain)
    | none => return none
  return none

def memberRest (g : Grammar) (calls : Bool) : Nat → Expr → Bool → Parser (Expr × Bool)
  | 0, e, chain => return (e, chain)
  | fuel + 1, e, chain => do
    match ← memberStep g calls e chain with
    | some (e, chain) => memberRest g calls fuel e chain
    | none => return (e, chain)

/-- A call after `e`, with what follows it. -/
def callRest (g : Grammar) : Nat → Expr → Bool → Parser (Expr × Bool)
  | 0, e, chain => return (e, chain)
  | fuel + 1, e, chain => do
    if ← at_ "?." then
      advance
      if (← dialect).typed && (← atAny ["<", "<<"]) then typeArguments g
      arguments g
      let (e, chain) ← memberRest g true fuel .other true
      callRest g fuel e chain
    else if ← at_ "(" then
      arguments g
      let (e, chain) ← memberRest g true fuel .other chain
      callRest g fuel e chain
    else return (e, chain)

/-- `new` with what it builds, after each `new` that stands before it. -/
def newExpression (g : Grammar) : Parser Expr := do
  keyword
  if ← eat "." then
    if !(← eatWord "target") then unexpected
    return .other
  if (← atWord "import") && !(← peekIs ".") then throw (.malformed "new import")
  if ← atWord "new" then
    discard g.leftHand
    return .other
  let callee ← primary g
  discard (memberRest g false (← room) callee false)
  if ← at_ "?." then throw (.malformed "optional chain after new")
  if ← at_ "(" then arguments g
  return .other

def leftHand (g : Grammar) : Parser Expr := do
  let start ← if ← atWord "new" then newExpression g else primary g
  let room ← room
  let (e, chain) ← memberRest g true room start false
  let (e, chain) ← callRest g room e chain
  return if chain then .other else e

/-! ## Operators -/

/-- A type before the expression that it is laid on. -/
def typeAssertion (g : Grammar) : Parser Expr := do
  expect "<"
  innerType g
  expect ">"
  return .typed (← g.unary)

/-- An operand with an update operator after it. -/
def postfixOperand (g : Grammar) : Parser Expr := do
  if (← dialect).markup && (← at_ "<") then
    let next ← peek
    if next.kind == .word || next.isPunctuator ">" then
      g.markup false
      return .other
  let e ← g.leftHand
  if (← atAny ["++", "--"]) && !(← afterBreak) then
    simpleTarget e
    advance
    return .other
  return e

def unaryOperand (g : Grammar) : Parser Expr := do
  let t ← token
  match t.kind with
  | .punctuator =>
    match t.text with
    | "+" | "-" | "~" | "!" => advance; discard g.unary; return .unary
    | "++" | "--" =>
      advance
      simpleTarget (← g.unary)
      return .other
    | "<" =>
      if (← dialect).typed && !(← dialect).markup then typeAssertion g else postfixOperand g
    | _ => postfixOperand g
  | .word =>
    if t.text == "delete" || t.text == "void" || t.text == "typeof" then
      keyword; discard g.unary; return .unary
    if t.text == "await" && (← read).awaits then
      keyword; discard g.unary; return .unary
    postfixOperand g
  | _ => postfixOperand g

/-- The binary operator that stands here. -/
def operatorHere : Parser (Option String) := do
  let t ← token
  match t.kind with
  | .punctuator => if t.text == ">" then return some (← angleOperator) else return some t.text
  | .word =>
    if t.text == "in" || t.text == "instanceof" then return some t.text
    if (t.text == "as" || t.text == "satisfies") && (← dialect).typed then return some t.text
    return none
  | _ => return none

/-- Operators of `??` and of `&&` or `||` are not mixed without parentheses. -/
def combine (op : String) (left right : Expr) : Parser Expr := do
  match op with
  | "??" =>
    match left, right with
    | .logical, _ => note
    | _, .logical => note
    | _, _ => pure ()
    return .coalesce
  | "||" | "&&" =>
    match left, right with
    | .coalesce, _ => note
    | _, .coalesce => note
    | _, _ => pure ()
    return .logical
  | "**" =>
    match left with
    | .unary => note
    | _ => pure ()
    return .other
  | _ => return .other

def binaryRest (g : Grammar) (least : Nat) : Nat → Expr → Parser Expr
  | 0, left => return left
  | fuel + 1, left => do
    match ← operatorHere with
    | none => return left
    | some op =>
      match binaryPrecedence? op with
      | none => return left
      | some strength =>
        let stops := if op == "**" then strength < least else strength ≤ least
        if stops || (op == "in" && !(← read).allowIn) then return left
        if op == "as" || op == "satisfies" then
          if ← afterBreak then return left
          keyword
          innerType g
          binaryRest g least fuel (.typed left)
        else
          if op.startsWith ">" then
            rescan fun here => .of .punctuator op (here.drop op.length)
            advance
          else if op == "in" || op == "instanceof" then keyword
          else advance
          let right ← g.binary strength
          binaryRest g least fuel (← combine op left right)

/-- An operand and the operators after it that bind tighter than `least`. -/
def binaryOperand (g : Grammar) (least : Nat) : Parser Expr := do
  let left ← do
    if ← atKind .privateName then
      advance
      if !(← atWord "in") || 8 ≤ least then unexpected
      keyword
      discard (g.binary 8)
      pure Expr.other
    else g.unary
  binaryRest g least (← room) left

/-! ## Arrow functions -/

/-- Whether an arrow function stands here. -/
inductive Likely where
  | yes
  | maybe
  | no
  deriving DecidableEq, Repr

def arrowAfterParenthesis : Parser Likely := do
  advance
  let t ← token
  if t.isPunctuator ")" then
    advance
    return if (← atAny ["=>", ":", "\x7b"]) then .yes else .no
  if t.isPunctuator "[" || t.isPunctuator "\x7b" then return .maybe
  if t.isPunctuator "..." then return .yes
  if t.kind == .word && modifierWords.contains t.text && t.text != "async" then
    if (← peek).isIdentifier then
      advance
      return if ← atWord "as" then .no else .yes
  if !t.isIdentifier && !t.isWord "this" then return .no
  advance
  if ← at_ ":" then return .yes
  if ← at_ "?" then
    advance
    return if (← atAny [":", ",", "=", ")"]) then .yes else .no
  if (← atAny [",", "=", ")"]) then return .maybe
  return .no

def arrowAfterAngle : Parser Likely := do
  advance
  let t ← token
  if !t.isIdentifier && !t.isWord "const" then return .no
  if (← dialect).markup then
    discard (eatWord "const")
    advance
    if ← atWord "extends" then
      advance
      return if (← atAny ["=", ">", "/"]) then .no else .yes
    return if (← atAny [",", "="]) then .yes else .no
  return .maybe

/-- How likely an arrow function with parentheses stands here. -/
def likelyArrow : Parser Likely := do
  let t ← token
  if t.isPunctuator "(" then ahead arrowAfterParenthesis
  else if t.isPunctuator "<" then
    if (← dialect).typed then ahead arrowAfterAngle else return .no
  else if t.isWord "async" && !t.escaped then
    ahead do
      advance
      if ← afterBreak then return .no
      if ← at_ "(" then arrowAfterParenthesis
      else if (← at_ "<") && (← dialect).typed then arrowAfterAngle
      else return .no
  else return .no

/-- What an arrow points to: a body or an expression. -/
def arrowBody (g : Grammar) (async result : Bool) : Parser Unit :=
  within (fun p => { p with yields := false, awaits := async }) do
    if ← at_ "\x7b" then
      within (fun p => { inFunction async false p with ambient := false }) (block g)
    else discard (g.assignment result)

/-- Parameters and result type up to the arrow, which is taken. -/
def arrowHead (g : Grammar) : Parser (Bool × Bool) := do
  let async ← eatWord "async"
  within (fun p => { p with yields := false, awaits := p.awaits || async }) do
    typeParameters g
    noteIf (← parameters g)
    let typed ← typeOfResult g
    if !(← at_ "=>") then throw (.expected "=>" (← token).text)
    noteIf (← afterBreak)
    advance
    return (async, typed)

/-- An arrow function with parentheses, if one stands here. -/
def parenthesisedArrow (g : Grammar) (result : Bool) : Parser (Option Expr) := do
  match ← likelyArrow with
  | .no => return none
  | .yes =>
    let (async, _) ← arrowHead g
    arrowBody g async result
    return some .other
  | .maybe =>
    let start ← place
    if (← get).notArrows.contains start then return none
    let whole : Parser Unit := do
      let (async, typed) ← arrowHead g
      arrowBody g async result
      if !result && typed && !(← at_ ":") then unexpected
    -- the body is parsed only once the head has been accepted
    match ← attempt (ahead (arrowHead g)) with
    | none =>
      modify fun s => { s with notArrows := start :: s.notArrows }
      return none
    | some (_, typed) =>
      if result || !typed then
        whole
        return some .other
      else
        match ← attempt whole with
        | some _ => return some .other
        | none =>
          modify fun s => { s with notArrows := start :: s.notArrows }
          return none

/-- `async x => …`, if it stands here. -/
def asyncArrow (g : Grammar) (result : Bool) : Parser (Option Expr) := do
  if !(← atWord "async") || (← token).escaped then return none
  let fits ← holdsAhead do
    advance
    if (← afterBreak) || !(← atIdentifier) then return false
    advance
    return (← at_ "=>") && !(← afterBreak)
  if !fits then return none
  keyword
  within (fun p => { p with awaits := true }) (discard identifier)
  advance
  arrowBody g true result
  return some .other

/-! ## Assignments and sequences -/

def yieldExpression (g : Grammar) : Parser Expr := do
  keyword
  if ← afterBreak then return .other
  let delegates ← eat "*"
  let ends := (← atAny [")", "]", "\x7d", ",", ";", ":"]) || (← atFinish) || (← atWord "in") ||
    (← atWord "of")
  if delegates || !ends then discard (g.assignment true)
  return .other

/-- The rest of a conditional expression. -/
def conditionalRest (g : Grammar) (result : Bool) (test : Expr) : Parser Expr := do
  if !(← eat "?") then return test
  discard (within withIn (g.assignment false))
  expect ":"
  discard (g.assignment result)
  return .other

/-- An expression without commas. -/
def assignment (g : Grammar) (result : Bool) : Parser Expr := do
  if (← atWord "yield") && (← read).yields then return ← yieldExpression g
  if let some e ← parenthesisedArrow g result then return e
  if let some e ← asyncArrow g result then return e
  let left ← g.binary 0
  if ← at_ "=>" then
    if let .name _ := left then
      noteIf (← afterBreak)
      advance
      arrowBody g false result
      return .other
  let op ← operatorHere
  match op with
  | some op =>
    if assignmentOperators.contains op then
      if op == "=" then target left else simpleTarget left
      rescan fun here => .of .punctuator op (here.drop op.length)
      advance
      discard (g.assignment result)
      return .assign (op == "=") left
    conditionalRest g result left
  | none => return left

/-- An expression with commas. -/
def sequence (g : Grammar) : Parser Expr := do
  let first ← g.assignment true
  if !(← at_ ",") then return first
  let step : Parser Bool := do
    if ← eat "," then discard (g.assignment true); return true
    return false
  repeatWhile step (← room)
  return .sequence

end ComponentRegistry.Script
