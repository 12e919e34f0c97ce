import ComponentRegistry.Script.Declaration

/-!
# Declarations of typed scripts

Interfaces, type aliases, enumerations, namespaces, and declarations without values.
-/

namespace ComponentRegistry.Script

open Script.Parser

/-- A declaration that only typed scripts have, or that has modifiers, begins here. -/
def startsTypedDeclaration : Parser Bool := do
  let rec go : Nat → Parser Bool
    | 0 => return false
    | fuel + 1 => do
      let t ← token
      if t.kind != .word then return false
      match t.text with
      | "var" | "let" | "const" | "function" | "class" | "enum" => return true
      | "interface" | "type" =>
        advance
        return (← atIdentifier) && !(← afterBreak)
      | "module" | "namespace" =>
        advance
        return ((← atIdentifier) || (← atKind .string)) && !(← afterBreak)
      | "abstract" | "accessor" | "async" | "declare" | "private" | "protected" | "public"
      | "readonly" =>
        advance
        if ← afterBreak then return false
        if t.text == "declare" && (← atWord "type") then return true
        go fuel
      | "global" =>
        advance
        return (← at_ "\x7b") || (← atIdentifier) || (← atWord "export")
      | "import" =>
        advance
        let next ← token
        return next.kind == .string || next.kind == .word || (← atAny ["*", "\x7b"])
      | "export" =>
        advance
        return (← atAny ["=", "*", "\x7b", "@"]) || (← atAnyWord ["default", "as", "type"])
      | "static" => advance; go fuel
      | _ => return false
  holdsAhead (do go (← room))

def interfaceDeclaration (g : Grammar) : Parser Unit := do
  expectWord "interface"
  discard identifier
  typeParameters g
  let step : Parser Bool := do
    typeReference g
    eat ","
  if ← eatWord "extends" then repeatWhile step (← room)
  if ← eatWord "implements" then
    note
    repeatWhile step (← room)
  objectType g

def typeAlias (g : Grammar) : Parser Unit := do
  expectWord "type"
  discard identifier
  typeParameters g
  expect "="
  if (← atWord "intrinsic") && !(← peekIs ".") then advance else g.type
  semicolon

/-- A member of an enumeration; only a fixed text may stand in brackets as its name. -/
def enumMember (g : Grammar) : Parser Unit := do
  let t ← token
  if t.kind == .word || t.kind == .string then advance
  else if ← at_ "[" then
    let inner ← ahead (do advance; token)
    let closes ← ahead (do advance; advance; at_ "]")
    noteIf !(closes && (inner.kind == .string || inner.kind == .template true))
    discard (propertyKey g)
  else throw (.malformed "name of an enumeration member")
  discard (initializer g)

def enumDeclaration (g : Grammar) : Parser Unit := do
  expectWord "enum"
  discard identifier
  expect "\x7b"
  discard (separated "\x7d" (enumMember g))
  expect "\x7d"

/-- Statements of a namespace. -/
def namespaceBody (g : Grammar) : Parser Unit :=
  within (fun p => { p with awaits := false, yields := false, returns := false }) (block g)

def namespaceDeclaration (g : Grammar) : Parser Unit := do
  if ← atWord "global" then
    advance
    namespaceBody g
    return
  discard anyName
  if ← atKind .string then
    advance
    if ← at_ "\x7b" then namespaceBody g else semicolon
  else
    discard identifier
    let step : Parser Bool := do
      if ← eat "." then discard anyName; return true
      return false
    repeatWhile step (← room)
    namespaceBody g

/-- What an import alias stands for. -/
def aliasTarget : Parser Unit := do
  if (← atWord "require") && (← peekIs "(") then
    advance
    expect "("
    discard stringLiteral
    expect ")"
  else
    discard identifier
    let step : Parser Bool := do
      if ← eat "." then discard anyName; return true
      return false
    repeatWhile step (← room)
  semicolon

/-- An import alias after `import`. -/
def importAlias : Parser Unit := do
  if ← atWord "type" then
    let typeOnly ← holdsAhead (do advance; return (← atIdentifier) && !(← atWord "from"))
    if typeOnly then keyword
  discard identifier
  expect "="
  aliasTarget

/-- What a declaration declares. -/
inductive Declared where
  | function (name : Option String)
  | other (names : List String)

/-- The modifiers that may stand before a declaration with this keyword. -/
def modifiersOf : String → List String
  | "function" => ["declare", "async"]
  | "class" => ["declare", "abstract"]
  | _ => ["declare"]

/-- A declaration after its modifiers. -/
def declarationAfter (g : Grammar) (marks : List String) : Parser Declared := do
  checkModifiers (modifiersOf (← token).text) marks
  let declared := marks.contains "declare"
  within (fun p => { p with ambient := p.ambient || declared }) do
    let t ← token
    match t.text with
    | "function" =>
      let bodyAllowed := !declared
      expectWord "function"
      let generator ← eat "*"
      let name ← identifier
      let async := marks.contains "async"
      if bodyAllowed then discard (functionRest g async generator)
      else
        within (inFunction async generator) do
          discard (callSignature g)
          if ← at_ "\x7b" then note; block g else semicolon
      return .function (some name)
    | "class" => g.class_ false; return .other []
    | "interface" => interfaceDeclaration g; return .other []
    | "type" => typeAlias g; return .other []
    | "enum" => enumDeclaration g; return .other []
    | "namespace" | "module" | "global" => namespaceDeclaration g; return .other []
    | "import" => keyword; importAlias; return .other []
    | "const" =>
      keyword
      if ← atWord "enum" then enumDeclaration g; return .other []
      return .other (← variableStatement g true)
    | "var" | "let" => keyword; return .other (← variableStatement g false)
    | _ =>
      if ← atUsing then
        usingDeclarators g true
        semicolon
        return .other []
      unexpected

def declarationModifiersAfter : Nat → List String → Parser (List String)
  | 0, seen => return seen.reverse
  | fuel + 1, seen => do
    let marks := ["abstract", "accessor", "async", "declare", "readonly", "static"] ++ accessWords
    if ← atAnyWord marks then declarationModifiersAfter fuel ((← modifierAfter seen) :: seen)
    else return seen.reverse

/-- The modifiers before a declaration. -/
def declarationModifiers : Parser (List String) := do declarationModifiersAfter (← room) []

def typedDeclaration (g : Grammar) : Parser Declared := do
  let marks ← declarationModifiers
  declarationAfter g marks

end ComponentRegistry.Script
