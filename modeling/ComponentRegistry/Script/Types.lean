import ComponentRegistry.Script.Binding

/-!
# Types

The grammar of type annotations: unions and intersections, operators, tuples, object types, mapped
and conditional types, and the types of functions.
-/

namespace ComponentRegistry.Script

open Script.Parser

/-- A type where a conditional one is allowed again. -/
def innerType (g : Grammar) : Parser Unit := within (fun p => { p with plainTypes := false }) g.type

/-! ## Function types -/

/-- Step over something that may be the start of a parameter. -/
def skipParameterStart (g : Grammar) : Parser Bool := do
  discard modifiers
  if (← atIdentifier) || (← atWord "this") then advance; return true
  if (← atAny ["[", "\x7b"]) then discard g.pattern; return true
  return false

/-- A parenthesis that can only open parameters follows. -/
def opensParameters (g : Grammar) : Parser Bool := holdsAhead do
  advance
  if (← atAny [")", "..."]) then return true
  if !(← skipParameterStart g) then return false
  if (← atAny [":", ",", "?", "="]) then return true
  if ← eat ")" then return ← at_ "=>"
  return false

def startsFunctionType (g : Grammar) : Parser Bool := do
  if (← atAny ["<", "<<"]) then return true
  if ← at_ "(" then return ← opensParameters g
  if ← atWord "new" then return true
  if ← atWord "abstract" then return ← peekIsWord "new"
  return false

def functionType (g : Grammar) : Parser Unit := do
  discard (eatWord "abstract")
  discard (eatWord "new")
  typeParameters g
  discard (parameters g)
  expect "=>"
  resultType g

/-! ## Members of object types -/

/-- The end of a member: a separator, or a place where it may be left out. -/
def memberEnd : Parser Unit := do
  if ← eat "," then pure () else semicolon

/-- A bracket that opens an index signature. -/
def opensIndexSignature : Parser Bool := do
  if !(← at_ "[") then return false
  holdsAhead do
    advance
    if (← atAny ["...", "]"]) then return true
    if (← atAnyWord modifierWords) && (← (do
        return (← peek).isIdentifier)) then return true
    if !(← atIdentifier) then return false
    advance
    if (← atAny [":", ","]) then return true
    if !(← eat "?") then return false
    atAny [":", ",", "]"]

def indexSignature (g : Grammar) : Parser Unit := do
  expect "["
  let parameter : Parser Unit := do
    discard identifier
    typeAnnotation g
  discard (separated "]" parameter)
  expect "]"
  typeAnnotation g

/-- Type parameters, parameters and result of what is called.  Answers whether `this` is given a
type. -/
def callSignature (g : Grammar) : Parser Bool := do
  typeParameters g
  let this ← parameters g
  discard (typeOfResult g)
  return this

def typeMember (g : Grammar) : Parser Unit := do
  if (← atAny ["(", "<"]) then
    discard (callSignature g)
    memberEnd
    return
  if (← atWord "new") && ((← peekIs "(") || (← peekIs "<")) then
    advance
    discard (callSignature g)
    memberEnd
    return
  let marks ← modifiers
  let isAccessor ← do
    if (← atAnyWord ["get", "set"]) then holdsAhead (do advance; canFollowModifier) else pure false
  if isAccessor then
    keyword
    checkModifiers ["readonly"] marks
    discard (propertyKey g)
    discard (callSignature g)
    memberEnd
    return
  if ← opensIndexSignature then
    checkModifiers ["readonly", "static"] marks
    indexSignature g
    memberEnd
    return
  checkModifiers ["readonly"] marks
  discard (propertyKey g)
  discard (eat "?")
  if (← atAny ["(", "<"]) then discard (callSignature g) else typeAnnotation g
  memberEnd

/-- Members between braces. -/
def objectType (g : Grammar) : Parser Unit := do
  expect "\x7b"
  let step : Parser Bool := do
    if (← at_ "\x7d") || (← atFinish) then return false
    typeMember g
    return true
  repeatWhile step (← room)
  expect "\x7d"

/-- A brace that opens a mapped type. -/
def opensMappedType : Parser Bool := holdsAhead do
  advance
  if (← atAny ["+", "-"]) then
    advance
    return ← atWord "readonly"
  discard (eatWord "readonly")
  if !(← eat "[") then return false
  if (← token).kind != .word then return false
  advance
  atWord "in"

/-- An optional sign and the mark it is put to. -/
def mappedMark (mark : Parser Bool) : Parser Unit := do
  if (← atAny ["+", "-"]) then
    advance
    if !(← mark) then unexpected
  else discard mark

def mappedType (g : Grammar) : Parser Unit := do
  expect "\x7b"
  mappedMark (eatWord "readonly")
  expect "["
  discard anyName
  expectWord "in"
  innerType g
  if ← eatWord "as" then innerType g
  expect "]"
  mappedMark (eat "?")
  typeAnnotation g
  discard (eat ";")
  discard (eat ",")
  expect "\x7d"

/-! ## Simple types -/

def tupleElement (g : Grammar) : Parser Unit := do
  let isNamed ← holdsAhead do
    discard (eat "...")
    if (← token).kind != .word then return false
    advance
    if ← at_ ":" then return true
    if ← eat "?" then return ← at_ ":"
    return false
  if isNamed then
    discard (eat "...")
    advance
    discard (eat "?")
    expect ":"
    innerType g
  else
    discard (eat "...")
    innerType g
    discard (eat "?")

/-- The parts of a template type after its head. -/
def templateTypeTail (g : Grammar) : Parser Unit := do
  let step : Parser Bool := do
    innerType g
    if !(← at_ "\x7d") then unexpected
    rescan fun here => templateTail (here.drop 1) false
    if ← atKind (.template true) then advance; return false
    if ← atKind (.template false) then advance; return true
    unexpected
  repeatWhile step (← room)

/-- Names with points between them, and type arguments. -/
def typeReference (g : Grammar) : Parser Unit := do
  discard anyName
  let step : Parser Bool := do
    if ← eat "." then discard anyName; return true
    return false
  repeatWhile step (← room)
  if !(← afterBreak) && (← atAny ["<", "<<"]) then typeArguments g

def importType (g : Grammar) : Parser Unit := do
  expectWord "import"
  expect "("
  innerType g
  if ← eat "," then
    if !(← at_ ")") then
      discard (g.assignment true)
      discard (eat ",")
  expect ")"
  let step : Parser Bool := do
    if ← eat "." then discard anyName; return true
    return false
  repeatWhile step (← room)
  if !(← afterBreak) && (← atAny ["<", "<<"]) then typeArguments g

def typeQuery (g : Grammar) : Parser Unit := do
  keyword
  if ← atWord "import" then importType g
  else
    discard anyName
    let step : Parser Bool := do
      if ← eat "." then
        if ← atKind .privateName then advance else discard anyName
        return true
      return false
    repeatWhile step (← room)
    if !(← afterBreak) && (← atAny ["<", "<<"]) then typeArguments g

/-- A type without array brackets. -/
def simpleType (g : Grammar) : Parser Unit := do
  let t ← token
  match t.kind with
  | .punctuator =>
    match t.text with
    | "(" => advance; innerType g; expect ")"
    | "[" => advance; discard (separated "]" (tupleElement g)); expect "]"
    | "\x7b" => if ← opensMappedType then mappedType g else objectType g
    | "-" =>
      advance
      if (← atKind .number) || (← atKind .bigInt) then advance else unexpected
    | "?" | "!" => advance; g.type
    | "*" => advance
    | _ => unexpected
  | .string | .number | .bigInt => advance
  | .template true => noteIf t.escaped; advance
  | .template false => noteIf t.escaped; advance; templateTypeTail g
  | .word =>
    match t.text with
    | "import" => importType g
    | "typeof" => typeQuery g
    | "void" | "true" | "false" | "null" => advance
    | "this" =>
      advance
      if (← atWord "is") && !(← afterBreak) then keyword; innerType g
    | "asserts" =>
      let claims ← holdsAhead do
        advance
        return ((← atIdentifier) || (← atWord "this")) && !(← afterBreak)
      if claims then
        keyword
        advance
        if ← eatWord "is" then innerType g
      else typeReference g
    | _ => typeReference g
  | _ => unexpected

/-- A type may begin here. -/
def startsType : Parser Bool := do
  let t ← token
  match t.kind with
  | .word | .string | .number | .bigInt | .template _ => return true
  | .punctuator =>
    return ["(", "[", "\x7b", "<", "<<", "|", "&", "-", "*", "?", "!", "..."].contains t.text
  | _ => return false

/-- Array brackets and index types after a type.  Answers whether the whole is an array or a tuple,
given whether the type before is. -/
def typeSuffixes (g : Grammar) : Nat → Bool → Parser Bool
  | 0, list => return list
  | fuel + 1, list => do
    if ← afterBreak then return list
    if ← eat "[" then
      let indexed ← startsType
      if indexed then innerType g
      expect "]"
      typeSuffixes g fuel !indexed
    else if ← eat "!" then typeSuffixes g fuel false
    else return list

/-- A simple type with what follows it.  Answers whether it is an array or a tuple. -/
def postfixType (g : Grammar) : Parser Bool := do
  let tuple ← at_ "["
  simpleType g
  typeSuffixes g (← room) tuple

/-- `infer` with its constraint. -/
def inferType (g : Grammar) : Parser Unit := do
  keyword
  discard identifier
  if ← atWord "extends" then
    let plain := (← read).plainTypes
    discard (attempt (do
      keyword
      within (fun p => { p with plainTypes := true }) g.type
      if !plain && (← at_ "?") then unexpected : Parser Unit))

/-- A type after operators; `readonly` stands only right before an array or a tuple. -/
def operatorType (g : Grammar) : Parser Unit := do
  let step : Parser (Option String) := do
    let t ← token
    if (← atAnyWord ["keyof", "unique", "readonly"]) then
      let isOperator ← holdsAhead (do advance; return (← startsType) && !(← atAny ["?", "!"]))
      if isOperator then keyword; return some t.text
    return none
  let operators ← collect step (← room) []
  let list ← do
    if (← atWord "infer") && (← peek).isIdentifier then inferType g; pure false
    else postfixType g
  noteIf (operators.dropLast.contains "readonly")
  noteIf (operators.getLast? == some "readonly" && !list)

/-- Members with one operator between them, which may also stand first. -/
def joinedTypes (op : String) (member : Parser Unit) : Parser Unit := do
  discard (eat op)
  member
  let step : Parser Bool := do
    if ← eat op then member; return true
    return false
  repeatWhile step (← room)

/-- A function type may stand as a member. -/
def orFunctionType (g : Grammar) (member : Parser Unit) : Parser Unit := do
  if ← startsFunctionType g then functionType g else member

def unionType (g : Grammar) : Parser Unit :=
  joinedTypes "|" (joinedTypes "&" (orFunctionType g (operatorType g)))

/-- A type of any form. -/
def anyType (g : Grammar) : Parser Unit :=
  within (fun p => { p with yields := false, awaits := false }) do
    if ← startsFunctionType g then functionType g
    else
      unionType g
      if !(← read).plainTypes && !(← afterBreak) && (← atWord "extends") then
        keyword
        within (fun p => { p with plainTypes := true }) g.type
        expect "?"
        innerType g
        expect ":"
        innerType g

end ComponentRegistry.Script
