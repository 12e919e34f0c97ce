import ComponentRegistry.Script.Statements

/-!
# Imports, exports and whole files

The statements that tie a file to others, and the grammar as a whole: its parts contain one
another, so the grammar of one depth is built on that of the depth below.  A text nests no deeper
than it has characters, which bounds the depth needed.
-/

namespace ComponentRegistry.Script

open Script.Parser

/-! ## Imports -/

/-- A name in a list of imports or exports: a word or a string. -/
structure ModuleName where
  text : String
  token : Token

def atModuleName : Parser Bool := do
  let t ← token
  return t.kind == .word || t.kind == .string

def moduleName : Parser ModuleName := do
  let t ← token
  if t.kind == .word || t.kind == .string then
    advance
    return ⟨t.text, t⟩
  unexpected

/-- One entry of a list of imports or exports. -/
structure ModuleEntry where
  /-- The name on the left of `as`. -/
  source : ModuleName
  /-- The name on the right of `as`, or the same one. -/
  target : ModuleName
  /-- The entry is marked as a type. -/
  typeOnly : Bool

def moduleEntry : Parser ModuleEntry := do
  let first ← moduleName
  let orRenamed (n : ModuleName) (typeOnly : Bool) : Parser ModuleEntry := do
    if ← eatWord "as" then return ⟨n, ← moduleName, typeOnly⟩
    return ⟨n, n, typeOnly⟩
  if first.token.isWord "type" && (← dialect).typed then
    if ← atWord "as" then
      let as1 ← moduleName
      if ← atWord "as" then
        let as2 ← moduleName
        -- `type as as x` is `as` renamed, `type as as` is `type` renamed
        if ← atModuleName then return ⟨as1, ← moduleName, true⟩
        return ⟨first, as2, false⟩
      if ← atModuleName then return ⟨first, ← moduleName, false⟩
      return ⟨as1, as1, true⟩
    if ← atModuleName then return ← orRenamed (← moduleName) true
    return ⟨first, first, false⟩
  orRenamed first false

/-- Entries between braces; where the whole list is of types, none is marked as one. -/
def moduleEntries (typeOnly : Bool) : Parser (List ModuleEntry) := do
  expect "\x7b"
  let (entries, _) ← separated "\x7d" moduleEntry
  expect "\x7d"
  noteIf (typeOnly && entries.any (·.typeOnly))
  return entries

/-- Options after the source of an import. -/
def importAttributes (g : Grammar) : Parser Unit := do
  let present ← do
    if ← atWord "with" then pure true
    else if (← atWord "assert") && !(← afterBreak) then pure true
    else pure false
  if present then
    keyword
    expect "\x7b"
    let entry : Parser Unit := do
      let t ← token
      if t.kind == .word || t.kind == .string then advance else unexpected
      expect ":"
      discard stringLiteral
    discard (separated "\x7d" entry)
    expect "\x7d"
  let _ := g

/-- The local name of an import binds it. -/
def checkImported (entry : ModuleEntry) : Parser Unit := do
  if !entry.target.token.isIdentifier then throw (.malformed "imported name")
  checkName entry.target.token

def namespaceImport : Parser Unit := do
  expect "*"
  expectWord "as"
  discard identifier

def namedImports (typeOnly : Bool) : Parser Unit := do
  (← moduleEntries typeOnly).forM checkImported

/-- The rest of an import from where its source is named. -/
def importSource (g : Grammar) (typeOnly : Bool) : Parser Statement := do
  let source ← stringLiteral
  importAttributes g
  semicolon
  return .importFrom source typeOnly

/-- A word after `import` that is not yet the name of what is imported. -/
def importMark (w : String) (fits : Token → Token → Bool) : Parser Bool := do
  if !(← atWord w) then return false
  holdsAhead do
    advance
    let first ← token
    advance
    let second ← token
    return fits first second

def importDeclaration (g : Grammar) : Parser Statement := do
  keyword
  if ← atKind .string then return ← importSource g false
  let typed := (← dialect).typed
  let typeOnly ← do
    if !typed then pure false
    else importMark "type" fun first second =>
      let opens := first.isPunctuator "\x7b" || first.isPunctuator "*"
      let named := first.isIdentifier &&
        (!first.isWord "from" || second.isWord "from" || second.isPunctuator "=")
      opens || named
  if typeOnly then keyword
  if !typeOnly then
    let deferred ← importMark "defer" fun first _ => first.isPunctuator "*"
    let sourced ← importMark "source" fun first second =>
      first.isIdentifier && second.isWord "from"
    if deferred || sourced then keyword
  if ← atIdentifier then
    discard identifier
    if typed && (← at_ "=") then
      advance
      aliasTarget
      return .other
    if ← eat "," then
      if ← at_ "*" then namespaceImport
      else if ← at_ "\x7b" then namedImports typeOnly
      else unexpected
  else if ← at_ "*" then namespaceImport
  else if ← at_ "\x7b" then namedImports typeOnly
  else unexpected
  expectWord "from"
  importSource g typeOnly

/-! ## Exports -/

/-- Remember a name that the module exports; typed scripts may export one twice. -/
def exportName (name : String) : Parser Unit := do
  noteIf (!(← dialect).typed && (← get).exported.contains name)
  modify fun s => { s with exported := name :: s.exported }

/-- A list of names that are exported, here or from another file. -/
def exportList (g : Grammar) (typeOnly : Bool) : Parser Statement := do
  let entries ← moduleEntries typeOnly
  entries.forM fun e => exportName e.target.text
  if ← eatWord "from" then
    let source ← stringLiteral
    importAttributes g
    semicolon
    return .exportFrom source
  entries.forM fun e => noteIf !e.source.token.isIdentifier
  semicolon
  return .exportNames (entries.map fun e => e.source.text)

/-- Everything that another file exports. -/
def exportAll (g : Grammar) : Parser Statement := do
  expect "*"
  if ← eatWord "as" then exportName (← moduleName).text
  expectWord "from"
  let source ← stringLiteral
  importAttributes g
  semicolon
  return .exportFrom source

def exportDefault (g : Grammar) : Parser Statement := do
  keyword
  exportName "default"
  discard (decorators g)
  let t ← token
  let typed := (← dialect).typed
  let ofName : Option String → Statement
    | some n => .exportFunction n
    | none => .other
  if t.isWord "function" then return ofName (← functionDefault g false)
  if t.isWord "async" && !t.escaped then
    let next ← peek
    if next.isWord "function" && !next.afterBreak then
      keyword
      return ofName (← functionDefault g true)
  if t.isWord "class" then
    g.class_ true
    return .other
  if typed && t.isWord "abstract" then
    let next ← peek
    if next.isWord "class" && !next.afterBreak then
      keyword
      g.class_ true
      return .other
  if typed && t.isWord "interface" then
    let next ← peek
    if next.isIdentifier && !next.afterBreak then
      interfaceDeclaration g
      return .other
  let e ← within withIn (g.assignment true)
  semicolon
  match e with
  | .name n => return .exportDefaultName n
  | _ => return .other
where
  /-- A function that may go without a name; its name binds in this file. -/
  functionDefault (g : Grammar) (async : Bool) : Parser (Option String) := do
    expectWord "function"
    let generator ← eat "*"
    let name ← do
      if ← atIdentifier then pure (some (← identifier)) else pure none
    discard (functionRest g async generator)
    return name

/-- A declaration that is exported where it stands. -/
def exportDeclared (g : Grammar) : Parser Statement := do
  let t ← token
  if !(← dialect).typed then
    let starts ← do
      if t.isWord "async" then peekIsWord "function"
      else pure (["var", "let", "const", "class", "function"].contains t.text && t.kind == .word)
    if !starts then unexpected
  if t.isWord "class" then
    let name ← peek
    exportName name.text
  match ← typedDeclaration g with
  | .function (some n) =>
    exportName n
    return .exportFunction n
  | .function none => return .other
  | .other names =>
    names.forM exportName
    return .other

def exportDeclaration (g : Grammar) : Parser Statement := do
  keyword
  let typed := (← dialect).typed
  let t ← token
  if ← decorators g then
    if typed && (← atWord "abstract") then keyword
    if ← atWord "class" then g.class_ false; return .other
    unexpected
  if t.isPunctuator "\x7b" then return ← exportList g false
  if t.isPunctuator "*" then return ← exportAll g
  if t.isWord "default" then return ← exportDefault g
  if typed then
    if ← eat "=" then
      discard (within withIn g.expression)
      semicolon
      return .other
    if t.isWord "as" && (← peekIsWord "namespace") then
      advance
      advance
      discard identifier
      semicolon
      return .other
    if t.isWord "type" then
      if ← peekIs "\x7b" then
        keyword
        return ← exportList g true
      if ← peekIs "*" then
        keyword
        return ← exportAll g
    if t.isWord "import" then
      keyword
      importAlias
      return .other
  exportDeclared g

/-! ## The grammar as a whole -/

/-- A statement that starts with decorators. -/
def decorated (g : Grammar) : Parser Statement := do
  discard (decorators g)
  if ← atWord "export" then
    keyword
    if ← atWord "default" then return ← exportDefault g
    if (← dialect).typed && (← atWord "abstract") then keyword
    if ← atWord "class" then g.class_ false; return .other
    unexpected
  if (← dialect).typed then checkModifiers (modifiersOf "class") (← declarationModifiers)
  if ← atWord "class" then g.class_ false; return .other
  unexpected

def anyStatement (g : Grammar) (alone : Bool) : Parser Statement := do
  let t ← token
  if t.isPunctuator "@" then return ← decorated g
  if t.isWord "import" && !t.escaped then
    let next ← peek
    if next.isPunctuator "(" || next.isPunctuator "." then
      expressionStatement g
      return .other
    return ← importDeclaration g
  if t.isWord "export" && !t.escaped then return ← exportDeclaration g
  plainStatement g alone

/-- The grammar one level above `g`, which is worked out where it is needed. -/
def Grammar.above (g : Thunk Grammar) : Grammar where
  assignment result := Script.assignment g.get result
  expression place := sequence g.get place
  unary place := unaryOperand g.get place
  leftHand place := Script.leftHand g.get place
  binary least := binaryOperand g.get least
  pattern place := bindingPattern g.get place
  type place := anyType g.get place
  statement alone := anyStatement g.get alone
  markup inside := markupElement g.get inside
  function async anonymous := functionLike g.get async anonymous
  class_ anonymous := classLike g.get anonymous

/-- The grammar for texts that nest `depth` deep. -/
def Grammar.ofDepth : Nat → Grammar
  | 0 => .bottom
  | depth + 1 => .above ⟨fun _ => Grammar.ofDepth depth⟩

/-- The statements of a whole file. -/
def wholeFile (g : Grammar) : Parser Program := do
  advance
  let step : Parser (Option Statement) := do
    if ← atFinish then return none
    return some (← g.statement false)
  collect step (← room) []

/-- The text after a line that names an interpreter. -/
def withoutInterpreterLine (text : List Char) : List Char :=
  match text with
  | '#' :: '!' :: r => r.dropWhile fun c => !isLineBreak c
  | t => t

/-- The rules at the top of a file. -/
def Place.top (d : Dialect) (size : Nat) : Place where
  dialect := d
  allowIn := true
  yields := false
  awaits := d.strict
  returns := false
  ambient := d.ambient
  plainTypes := false
  size := size

/-- Enough depth for a text: every level takes at least one of some eight characters. -/
def depthFor (text : List Char) : Nat := 8 * text.length + 32

/-- The program that a text writes. -/
def parseProgram (d : Dialect) (text : List Char) : Except SyntaxFault Program :=
  let text := withoutInterpreterLine text
  let start : Position :=
    { token := ⟨.finish, "", false, false⟩, here := text, rest := text
      faulty := false, openDefaults := [], exported := [], notArrows := [] }
  match (wholeFile (Grammar.ofDepth (depthFor text)) (Place.top d text.length)).run start with
  | (.error f, _) => .error f
  | (.ok program, s) =>
    if s.faulty || !s.openDefaults.isEmpty then .error (.malformed "program") else .ok program

end ComponentRegistry.Script
