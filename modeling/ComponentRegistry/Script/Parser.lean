import ComponentRegistry.Script.Lexer
import ComponentRegistry.Script.Syntax

/-!
# Parsing with one token of view

A parser knows the current token and the text after it.  Failing leaves what it has seen behind;
`attempt` and `ahead` put the position back.  A fault that parsing can go on after is only noted,
and refuses the file in the end.
-/

namespace ComponentRegistry.Script

/-- Why a source file is refused. -/
inductive SyntaxFault where
  | unexpected (found : String)
  | expected (wanted : String) (found : String)
  | malformed (what : String)
  deriving DecidableEq, Repr

def SyntaxFault.message : SyntaxFault → String
  | .unexpected found => s!"Unexpected token {found}"
  | .expected wanted found => s!"Expected {wanted} but found {found}"
  | .malformed what => s!"Invalid {what}"

/-- What is allowed at the current place. -/
structure Place where
  dialect : Dialect
  /-- `in` is an operator here. -/
  allowIn : Bool
  /-- `yield` is a keyword here. -/
  yields : Bool
  /-- `await` is a keyword here. -/
  awaits : Bool
  /-- Inside a function body. -/
  returns : Bool
  /-- Declarations need no values. -/
  ambient : Bool
  /-- A conditional type may not begin here. -/
  plainTypes : Bool
  /-- Number of characters of the whole text. -/
  size : Nat

structure Position where
  token : Token
  /-- The text from the token on. -/
  here : List Char
  /-- The text after the token. -/
  rest : List Char
  /-- A fault has been noted. -/
  faulty : Bool
  /-- Places of the shorthand members whose defaults are not yet part of a pattern. -/
  openDefaults : List Nat
  /-- Names that the module exports, last first. -/
  exported : List String
  /-- Places where a parenthesis is known not to begin an arrow function. -/
  notArrows : List Nat

/-- A parser of an `α`. -/
abbrev Parser (α : Type) := ReaderT Place (ExceptT SyntaxFault (StateM Position)) α

namespace Parser

def token : Parser Token := return (← get).token

def dialect : Parser Dialect := return (← read).dialect

def fault {α : Type} (f : SyntaxFault) : Parser α := throw f

def unexpected {α : Type} : Parser α := do throw (.unexpected (← token).text)

/-- Note a fault and go on. -/
def note : Parser Unit := modify fun s => { s with faulty := true }

def noteIf (b : Bool) : Parser Unit := if b then note else pure ()

/-- Run `p`, then go back to where it began. -/
def ahead {α : Type} (p : Parser α) : Parser α := do
  let s ← get
  let a ← p
  set s
  return a

/-- Whether `p` holds ahead; a parser that fails does not hold. -/
def holdsAhead (p : Parser Bool) : Parser Bool := fun place s =>
  match (p place).run s with
  | (.ok b, _) => (pure b, s)
  | (.error _, _) => (pure false, s)

/-- What `p` yields, or nothing and no step taken if it fails. -/
def attempt {α : Type} (p : Parser α) : Parser (Option α) := fun place s =>
  match (p place).run s with
  | (.ok a, t) => (pure (some a), t)
  | (.error _, t) => (pure none, { s with notArrows := t.notArrows })

/-- Run `p` with other rules in force. -/
def within {α : Type} (change : Place → Place) (p : Parser α) : Parser α := withReader change p

/-! ## Moving on -/

/-- Make `piece`, which begins at `here`, the current token. -/
def setToken (here : List Char) (afterBreak : Bool) (piece : Piece) : Parser Unit :=
  modify fun s =>
    { s with
      token := ⟨piece.kind, piece.text, afterBreak, piece.escaped⟩
      here := here
      rest := piece.rest
      faulty := s.faulty || piece.bad }

/-- Go to the next token, which is read by `read`. -/
def advanceBy (read : List Char → Piece) : Parser Unit := do
  let s ← get
  let t := skipTrivia (!(← dialect).strict) .code s.rest false
  noteIf t.unclosed
  setToken t.rest t.afterBreak (read t.rest)

/-- Go to the next token. -/
def advance : Parser Unit := advanceBy readPiece

/-- Read the current token anew by another rule. -/
def rescan (read : List Char → Piece) : Parser Unit := do
  let s ← get
  setToken s.here s.token.afterBreak (read s.here)

/-- Go to the next token between tags. -/
def advanceMarkup : Parser Unit := do
  let s ← get
  let piece := match s.rest with
    | '<' :: r => Piece.of .punctuator "<" r
    | '\x7b' :: r => .of .punctuator "\x7b" r
    | [] => .of .finish "" []
    | r => markupText r false
  setToken s.rest false piece

/-- Go to the value of an attribute. -/
def advanceAttribute : Parser Unit := advanceBy fun here =>
  match here with
  | '"' :: r => attributeText '"' r
  | '\'' :: r => attributeText '\'' r
  | _ => readPiece here

/-! ## Looking at the token -/

def at_ (p : String) : Parser Bool := return (← token).isPunctuator p

def atAny (ps : List String) : Parser Bool := do
  let t ← token
  return t.kind == .punctuator && ps.contains t.text

def atWord (w : String) : Parser Bool := return (← token).isWord w

def atAnyWord (ws : List String) : Parser Bool := do
  let t ← token
  return t.kind == .word && ws.contains t.text

def atKind (k : Token.Kind) : Parser Bool := return (← token).kind == k

def atFinish : Parser Bool := atKind .finish

def afterBreak : Parser Bool := return (← token).afterBreak

def atIdentifier : Parser Bool := return (← token).isIdentifier

/-- The token after the current one. -/
def peek : Parser Token := ahead (do advance; token)

def peekIs (p : String) : Parser Bool := return (← peek).isPunctuator p

def peekIsWord (w : String) : Parser Bool := return (← peek).isWord w

/-- Take a punctuator if it is the current token. -/
def eat (p : String) : Parser Bool := do
  if ← at_ p then advance; return true else return false

/-- Take the current token as a keyword, which is then not to be written with escapes. -/
def keyword : Parser Unit := do
  noteIf (← token).escaped
  advance

def eatWord (w : String) : Parser Bool := do
  if ← atWord w then keyword; return true else return false

def expect (p : String) : Parser Unit := do
  if ← at_ p then advance else throw (.expected p (← token).text)

def expectWord (w : String) : Parser Unit := do
  if ← atWord w then keyword else throw (.expected w (← token).text)

/-! ## Small parts -/

/-- A statement may end here. -/
def canEnd : Parser Bool := do
  return (← atAny [";", "\x7d"]) || (← atFinish) || (← afterBreak)

/-- The end of a statement: a semicolon, or a place where one may be left out. -/
def semicolon : Parser Unit := do
  if ← canEnd then discard (eat ";") else throw (.expected ";" (← token).text)

/-- A word with a meaning of its own where it stands may not be a name there. -/
def checkName (t : Token) : Parser Unit := do
  let place ← read
  noteIf (t.text == "await" && place.awaits)
  noteIf (t.text == "yield" && place.yields)

/-- A name that refers to or binds a variable. -/
def identifier : Parser String := do
  let t ← token
  if !t.isIdentifier then unexpected
  checkName t
  advance
  return t.text

/-- Any word as a name. -/
def anyName : Parser String := do
  let t ← token
  if t.kind != .word then unexpected
  advance
  return t.text

/-- The text of a string literal. -/
def stringLiteral : Parser String := do
  let t ← token
  if t.kind != .string then unexpected
  advance
  return t.text

/-- Where the parser stands: the number of characters from the current token on. -/
def place : Parser Nat := return (← get).here.length

/-- Bound on the elements of a list in the text. -/
def room : Parser Nat := return (← read).size + 2

/-- Repeat `step` until it answers false. -/
def repeatWhile (step : Parser Bool) : Nat → Parser Unit
  | 0 => pure ()
  | fuel + 1 => do if ← step then repeatWhile step fuel

/-- The elements that `step` yields until it yields none. -/
def collect {α : Type} (step : Parser (Option α)) : Nat → List α → Parser (List α)
  | 0, acc => return acc.reverse
  | fuel + 1, acc => do
    match ← step with
    | some a => collect step fuel (a :: acc)
    | none => return acc.reverse

/-- Elements with commas between them up to `close`, which is not taken; a comma may follow the
last one, and the answer's flag says that it does. -/
def separated {α : Type} (close : String) (element : Parser α) : Parser (List α × Bool) := do
  let rec go : Nat → List α → Bool → Parser (List α × Bool)
    | 0, acc, comma => return (acc.reverse, comma)
    | fuel + 1, acc, comma => do
      if ← at_ close then return (acc.reverse, comma)
      let a ← element
      if ← eat "," then go fuel (a :: acc) true
      else if ← at_ close then return ((a :: acc).reverse, false)
      else throw (.expected close (← token).text)
  go (← room) [] false

end Parser

/-- What a binding pattern binds. -/
structure Pattern where
  /-- The pattern is a name. -/
  simple : Bool
  names : List String

/-- The parts of the grammar that contain one another, at one depth of nesting. -/
structure Grammar where
  /-- An expression without commas; the flag allows an arrow function its result type. -/
  assignment : Bool → Parser Expr
  /-- An expression with commas. -/
  expression : Parser Expr
  /-- An operand with the operators before it. -/
  unary : Parser Expr
  /-- A primary expression with the properties and calls after it. -/
  leftHand : Parser Expr
  /-- An operand and the operators that bind tighter than the given strength. -/
  binary : Nat → Parser Expr
  pattern : Parser Pattern
  type : Parser Unit
  /-- A statement; the flag says that it stands alone as the body of another one. -/
  statement : Bool → Parser Statement
  /-- An element; the flag says that it stands between the tags of another one. -/
  markup : Bool → Parser Unit
  /-- A function from its keyword on; the flags say that it is asynchronous and needs no name. -/
  function : Bool → Bool → Parser (Option String)
  /-- A class from its keyword on. -/
  class_ : Bool → Parser Unit

/-- Nothing more may nest. -/
def Grammar.bottom : Grammar :=
  let deep {α : Type} : Parser α := Parser.fault (.malformed "nesting")
  { assignment := fun _ => deep, expression := deep, unary := deep, leftHand := deep
    binary := fun _ => deep, pattern := deep, type := deep, statement := fun _ => deep
    markup := fun _ => deep, function := fun _ _ => deep, class_ := fun _ => deep }

end ComponentRegistry.Script
