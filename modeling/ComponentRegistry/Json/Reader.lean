import ComponentRegistry.Json.Fault

/-!
# Reading JSON text

A reader moves a cursor over the text and either yields a value or stops with a fault.  The text
is read from left to right once, so of several faults the first is reported.  Values nest at most
127 deep.
-/

namespace ComponentRegistry.Json

/-- The rest of the text and the position reached: bytes of the current line already read. -/
structure Cursor where
  rest : List Char
  line : Nat
  column : Nat
  deriving Repr

namespace Cursor

def start (text : List Char) : Cursor := ⟨text, 1, 0⟩

/-- The position after one more byte. -/
def byteAfter (c : Cursor) : Nat × Nat :=
  match c.rest with
  | [] => (c.line, c.column)
  | ch :: _ => if ch = '\n' then (c.line + 1, 0) else (c.line, c.column + 1)

/-- The cursor after the next character. -/
def next (c : Cursor) : Cursor :=
  match c.rest with
  | [] => c
  | ch :: r => if ch = '\n' then ⟨r, c.line + 1, 0⟩ else ⟨r, c.line, c.column + ch.utf8Size⟩

/-- The fault that lies before the cursor. -/
def faultHere (c : Cursor) (cause : Fault.Cause) : Fault := ⟨cause, c.line, c.column⟩

/-- The fault that lies in the next byte. -/
def faultNext (c : Cursor) (cause : Fault.Cause) : Fault := ⟨cause, c.byteAfter.1, c.byteAfter.2⟩

def skipBlanksFrom : List Char → Nat → Nat → Cursor
  | ' ' :: r, line, column => skipBlanksFrom r line (column + 1)
  | '\t' :: r, line, column => skipBlanksFrom r line (column + 1)
  | '\r' :: r, line, column => skipBlanksFrom r line (column + 1)
  | '\n' :: r, line, _ => skipBlanksFrom r (line + 1) 0
  | rest, line, column => ⟨rest, line, column⟩

/-- The cursor after the blanks: space, tab, carriage return and line feed. -/
def skipBlanks (c : Cursor) : Cursor := skipBlanksFrom c.rest c.line c.column

end Cursor

/-- A reader of an `α`. -/
abbrev Reader (α : Type) := StateT Cursor (Except Fault) α

namespace Reader

/-- The next character, not taken. -/
def peek? : Reader (Option Char) := return (← get).rest.head?

def take : Reader Unit := modify Cursor.next

def skipBlanks : Reader Unit := modify Cursor.skipBlanks

def failHere {α : Type} (cause : Fault.Cause) : Reader α := do throw ((← get).faultHere cause)

def failNext {α : Type} (cause : Fault.Cause) : Reader α := do throw ((← get).faultNext cause)

/-- The next character that is no blank, not taken. -/
def peekValue? : Reader (Option Char) := do skipBlanks; peek?

/-- The rest of a word whose first letter is taken. -/
def word : List Char → Reader Unit
  | [] => pure ()
  | expected :: more => do
    match ← peek? with
    | none => failHere .endInValue
    | some c =>
      if c = expected then take; word more
      else failNext .expectedWord

/-! ## Numbers -/

def isDigit (c : Option Char) : Bool := c.any Char.isDigit

def digitOf (c : Char) : Nat := c.toNat - '0'.toNat

/-- The digits at the cursor. -/
def digits : Reader (List Nat) := do
  let ds := (← get).rest.takeWhile Char.isDigit
  modify fun c => ⟨c.rest.drop ds.length, c.line, c.column + ds.length⟩
  return ds.map digitOf

/-- The greatest unsigned word. -/
def wordMax : Nat := Nat.pow 2 64 - 1

/-- Digits put behind `significand` as long as it fits a word, and how many were not used. -/
def accumulate : Nat → List Nat → Nat × Nat
  | significand, [] => (significand, 0)
  | significand, d :: ds =>
    if significand * 10 + d ≤ wordMax then accumulate (significand * 10 + d) ds
    else (significand, ds.length + 1)

/-- `significand · 10^exponent` in double arithmetic, one rounding a step; `none` if too great. -/
def scale (fuel : Nat) (f : Float) (exponent : Int) : Option Float :=
  match fuel with
  | 0 => some f
  | fuel + 1 =>
    if exponent.natAbs ≤ 308 then
      let power := Float.ofScientific 1 false exponent.natAbs
      if 0 ≤ exponent then
        let g := f * power
        if g.isInf then none else some g
      else some (f / power)
    else if f == 0.0 then some f
    else if 0 ≤ exponent then none
    else scale fuel (f / Float.ofScientific 1 false 308) (exponent + 308)

/-- The double `± significand · 10^exponent`. -/
def double (positive : Bool) (significand : Nat) (exponent : Int) : Reader JsonNumber :=
  match scale 10 significand.toUInt64.toFloat exponent with
  | none => failHere .numberOutOfRange
  | some f => return .double (if positive then f else -f).toBits

/-- The greatest exponent that is kept; exponents are signed 32-bit words. -/
def exponentMax : Nat := 2147483647

def clampExponent (e : Int) : Int := max (-exponentMax - 1) (min exponentMax e)

/-- The exponent that the digits write, or after how many of them it does not fit. -/
def exponentOf (ds : List Nat) : Except Nat Nat :=
  go 1 0 ds
where
  go (place : Nat) (n : Nat) : List Nat → Except Nat Nat
    | [] => .ok n
    | d :: ds => if n * 10 + d ≤ exponentMax then go (place + 1) (n * 10 + d) ds else .error place

/-- The double with these digits of its exponent, which begin at `start`. -/
def withExponent (positive : Bool) (significand : Nat) (shift : Int) (raises : Bool)
    (start : Cursor) (ds : List Nat) : Reader JsonNumber :=
  match exponentOf ds with
  | .ok n => double positive significand (clampExponent (if raises then shift + n else shift - n))
  | .error place =>
    if significand ≠ 0 ∧ raises then
      throw ⟨.numberOutOfRange, start.line, start.column + place⟩
    else return .double (if positive then (0.0 : Float) else -0.0).toBits

/-- The digits of an exponent, its sign taken if there is one. -/
def exponentDigits (positive : Bool) (significand : Nat) (shift : Int) (raises : Bool) :
    Reader JsonNumber := do
  match ← peek? with
  | none => failHere .endInValue
  | some c =>
    if !c.isDigit then failNext .invalidNumber
    else
      let start ← get
      withExponent positive significand shift raises start (← digits)

/-- An exponent, its letter not yet taken. -/
def exponentPart (positive : Bool) (significand : Nat) (shift : Int) : Reader JsonNumber := do
  take
  match ← peek? with
  | some '+' => take; exponentDigits positive significand shift true
  | some '-' => take; exponentDigits positive significand shift false
  | _ => exponentDigits positive significand shift true

/-- A fraction, its point not yet taken. -/
def fractionPart (positive : Bool) (significand : Nat) (shift : Int) : Reader JsonNumber := do
  take
  let ds ← digits
  if ds.isEmpty then
    match ← peek? with
    | some _ => failNext .invalidNumber
    | none => failNext .endInValue
  else
    let (n, unused) := accumulate significand ds
    let shift := shift - ((ds.length : Int) - unused)
    match ← peek? with
    | some 'e' => exponentPart positive n shift
    | some 'E' => exponentPart positive n shift
    | _ => double positive n shift

/-- The digits before the point, the first of which is next: their value in a word, and how many
digits behind it were not used.  No digit follows a leading zero. -/
def integerPart (first : Char) : Reader (Nat × Nat) := do
  if first = '0' then
    take
    if isDigit (← peek?) then failNext .invalidNumber else return (0, 0)
  else return accumulate 0 (← digits)

/-- The number with these digits before the point. -/
def numberFrom (positive : Bool) (n unused : Nat) : Reader JsonNumber := do
  match ← peek? with
  | some '.' => fractionPart positive n unused
  | some 'e' => exponentPart positive n unused
  | some 'E' => exponentPart positive n unused
  | _ =>
    if unused ≠ 0 then double positive n unused
    else if positive then return .integer n
    else if n = 0 ∨ Nat.pow 2 63 < n then
      return .double (-(n.toUInt64.toFloat)).toBits
    else return .integer (-n)

/-- A number, its minus sign taken if there is one. -/
def number (positive : Bool) : Reader JsonNumber := do
  match ← peek? with
  | none => failHere .endInValue
  | some c =>
    if !c.isDigit then failNext .invalidNumber
    else
      let (n, unused) ← integerPart c
      numberFrom positive n unused

/-! ## Strings -/

/-- The four hexadecimal digits of an escape. -/
def fourDigits : Reader Nat := do
  let here ← get
  match here.rest with
  | a :: b :: c :: d :: r =>
    match [a, b, c, d].mapM hexValue? with
    | some ds =>
      set (⟨r, here.line, here.column + 4⟩ : Cursor)
      return ds.foldl (· * 16 + ·) 0
    | none => stray here
  | _ => stray here
where
  hexValue? (c : Char) : Option Nat :=
    if c.isDigit then some (c.toNat - '0'.toNat)
    else if 'a' ≤ c ∧ c ≤ 'f' then some (c.toNat - 'a'.toNat + 10)
    else if 'A' ≤ c ∧ c ≤ 'F' then some (c.toNat - 'A'.toNat + 10)
    else none
  /-- Four bytes that are no such digits, or fewer than four. -/
  stray (here : Cursor) : Reader Nat :=
    let rec go : List Char → Nat → Nat → Nat → Option (Nat × Nat) × (Nat × Nat)
      | _, 0, line, column => (some (line, column), (line, column))
      | [], _ + 1, line, column => (none, (line, column))
      | ch :: r, n + 1, line, column =>
        if ch = '\n' then go r n (line + 1) 0
        else go r (n + 1 - ch.utf8Size) line (column + min (n + 1) ch.utf8Size)
    match go here.rest 4 here.line here.column with
    | (some (line, column), _) => throw ⟨.invalidEscape, line, column⟩
    | (none, (line, column)) => throw ⟨.endInString, line, column⟩

/-- The next character of a string, taken. -/
def stringChar : Reader Char := do
  match ← peek? with
  | none => failHere .endInString
  | some c => take; return c

def isHighSurrogate (n : Nat) : Bool := 0xD800 ≤ n && n ≤ 0xDBFF

def isLowSurrogate (n : Nat) : Bool := 0xDC00 ≤ n && n ≤ 0xDFFF

/-- The character of a `\u` escape whose letter is taken; surrogates come in pairs. -/
def unicodeEscape : Reader Char := do
  let high ← fourDigits
  if isLowSurrogate high then failHere .loneSurrogate
  else if !isHighSurrogate high then return Char.ofNat high
  else
    if (← stringChar) ≠ '\\' then failBroken
    if (← stringChar) ≠ 'u' then failBroken
    let low ← fourDigits
    if isLowSurrogate low then
      return Char.ofNat (0x10000 + (high - 0xD800) * 0x400 + (low - 0xDC00))
    else failHere .loneSurrogate
where
  failBroken : Reader Unit := failHere .brokenSurrogatePair

/-- The character of an escape whose backslash is taken. -/
def escape : Reader Char := do
  match ← stringChar with
  | '"' => return '"'
  | '\\' => return '\\'
  | '/' => return '/'
  | 'b' => return Char.ofNat 8
  | 'f' => return Char.ofNat 12
  | 'n' => return '\n'
  | 'r' => return '\r'
  | 't' => return '\t'
  | 'u' => unicodeEscape
  | _ => failHere .invalidEscape

/-- The characters of a string up to its closing quote, which is taken. -/
def stringTail : Nat → List Char → Reader (List Char)
  | 0, _ => failHere .endInString
  | fuel + 1, acc => do
    match ← peek? with
    | none => failHere .endInString
    | some '"' => take; return acc.reverse
    | some '\\' => take; stringTail fuel ((← escape) :: acc)
    | some c =>
      if c.toNat < 32 then failNext .controlCharacter
      else take; stringTail fuel (c :: acc)

/-- The text of a string whose opening quote is next. -/
def string : Reader String := do
  take
  return String.ofList (← stringTail ((← get).rest.length + 1) [])

/-! ## Containers -/

/-- Whether another element follows; its comma is taken. -/
def moreItems (first : Bool) : Reader Bool := do
  match ← peekValue? with
  | none => failNext .endInList
  | some ']' => return false
  | some c =>
    if first then return true
    else if c = ',' then
      take
      match ← peekValue? with
      | some ']' => failNext .trailingComma
      | some _ => return true
      | none => failNext .endInValue
    else failNext .expectedListEnd

/-- Whether another member follows; its comma is taken and its key's quote is next. -/
def moreMembers (first : Bool) : Reader Bool := do
  match ← peekValue? with
  | none => failNext .endInObject
  | some '\x7d' => return false
  | some c =>
    if first then
      if c = '"' then return true else failNext .keyNotString
    else if c = ',' then
      take
      match ← peekValue? with
      | some '"' => return true
      | some '\x7d' => failNext .trailingComma
      | some _ => failNext .keyNotString
      | none => failNext .endInValue
    else failNext .expectedObjectEnd

/-- The colon after a key. -/
def colon : Reader Unit := do
  match ← peekValue? with
  | some ':' => take
  | some _ => failNext .expectedColon
  | none => failNext .endInObject

/-- The elements of a list up to its bracket, which is taken. -/
def items {α : Type} (item : Reader α) : Nat → Bool → List α → Reader (List α)
  | 0, _, _ => failHere .endInList
  | fuel + 1, first, acc => do
    if ← moreItems first then items item fuel false ((← item) :: acc)
    else take; return acc.reverse

/-- Fold over the members of an object up to its brace, which is taken. -/
def members {σ : Type} (member : σ → String → Reader σ) : Nat → Bool → σ → Reader σ
  | 0, _, _ => failHere .endInObject
  | fuel + 1, first, acc => do
    if ← moreMembers first then members member fuel false (← member acc (← string))
    else take; return acc

/-- More than the elements that the rest of the text can hold. -/
def roomForItems : Reader Nat := return (← get).rest.length + 1

/-- How deep values may nest, with the one that is refused. -/
def nestingLimit : Nat := 128

/-- One level deeper, if that is allowed. -/
def nested {α : Type} (depth : Nat) (body : Reader α) : Reader α :=
  if depth ≤ 1 then failNext .nestedTooDeep else body

/-- A word, a number or a string that begins with this character, which is next. -/
def scalar (first : Char) : Reader Json := do
  match first with
  | 'n' => take; word "ull".toList; return .null
  | 't' => take; word "rue".toList; return .bool true
  | 'f' => take; word "alse".toList; return .bool false
  | '-' => take; return .number (← number false)
  | '"' => return .string (← string)
  | c => if c.isDigit then return .number (← number true) else failNext .expectedValue

/-- A value; `depth` levels of nesting are left. -/
def value : Nat → Reader Json
  | 0 => failNext .nestedTooDeep
  | depth + 1 => do
    match ← peekValue? with
    | none => failNext .endInValue
    | some '[' => nested (depth + 1) do
        take
        return .array (← items (value depth) (← roomForItems) true [])
    | some '\x7b' => nested (depth + 1) do
        take
        let add (acc : List (String × Json)) (key : String) : Reader (List (String × Json)) := do
          colon
          return insertEntry key (← value depth) acc
        return .object (← members add (← roomForItems) true [])
    | some c => scalar c

/-- Nothing but blanks follows. -/
def finish : Reader Unit := do
  match ← peekValue? with
  | none => pure ()
  | some _ => failNext .trailingCharacters

/-- The answer of a reader that has to take the whole text. -/
def readAll {α : Type} (r : Reader α) (text : String) : Except Fault α :=
  ((do let a ← r; finish; return a : Reader α).run (Cursor.start text.toList)).map (·.1)

/-! ## Values of an expected kind -/

/-- Refuse the value at the cursor, which is not of the expected kind. -/
def failType {α : Type} (expected : String) : Reader α := do
  match ← peek? with
  | some 'n' => take; word "ull".toList; failHere (.invalidType .null expected)
  | some 't' => take; word "rue".toList; failHere (.invalidType (.bool true) expected)
  | some 'f' => take; word "alse".toList; failHere (.invalidType (.bool false) expected)
  | some '-' => take; failHere (.invalidType (.number (← number false)) expected)
  | some '"' => failHere (.invalidType (.string (← string)) expected)
  | some '[' => failHere (.invalidType .sequence expected)
  | some '\x7b' => failHere (.invalidType .map expected)
  | some c =>
    if c.isDigit then failHere (.invalidType (.number (← number true)) expected)
    else failNext .expectedValue
  | none => failNext .expectedValue

/-- A string where nothing else is allowed. -/
def stringValue (expected : String) : Reader String := do
  match ← peekValue? with
  | none => failNext .endInValue
  | some '"' => string
  | some _ => failType expected

/-- `none` for `null`, else what `r` reads. -/
def orNull {α : Type} (r : Reader α) : Reader (Option α) := do
  match ← peekValue? with
  | some 'n' => take; word "ull".toList; return none
  | _ => return some (← r)

/-! ## Skipping values -/

/-- Skip an exponent, its letter not yet taken. -/
def skipExponent : Reader Unit := do
  take
  match ← peek? with
  | some '+' => take
  | some '-' => take
  | _ => pure ()
  if isDigit (← peek?) then discard digits else failNext .invalidNumber

/-- Skip a number, its minus sign taken if there is one. -/
def skipNumber : Reader Unit := do
  match ← peek? with
  | some '0' =>
    take
    if isDigit (← peek?) then failNext .invalidNumber
  | some c => if c.isDigit then discard digits else failNext .invalidNumber
  | none => failHere .invalidNumber
  match ← peek? with
  | some '.' =>
    take
    if (← digits).isEmpty then failNext .invalidNumber
    match ← peek? with
    | some 'e' => skipExponent
    | some 'E' => skipExponent
    | _ => pure ()
  | some 'e' => skipExponent
  | some 'E' => skipExponent
  | _ => pure ()

/-- Skip a string up to its closing quote; surrogates need no partner here. -/
def skipStringTail : Nat → Reader Unit
  | 0 => failHere .endInString
  | fuel + 1 => do
    match ← peek? with
    | none => failHere .endInString
    | some '"' => take
    | some '\\' =>
      take
      let c ← stringChar
      if c = 'u' then discard fourDigits
      else if !(['"', '\\', '/', 'b', 'f', 'n', 'r', 't'].contains c) then failHere .invalidEscape
      skipStringTail fuel
    | some c =>
      if c.toNat < 32 then failHere .controlCharacter
      else take; skipStringTail fuel

def skipString : Reader Unit := do
  take
  skipStringTail ((← get).rest.length + 1)

/-- Close containers until one goes on after a comma; the innermost is the head. -/
def skipClosers : Nat → Bool → Char → List Char → Reader (Option (List Char))
  | 0, _, _, _ => failHere .endInValue
  | fuel + 1, mayFollow, opener, outer => do
    let closer := if opener = '[' then ']' else '\x7d'
    match ← peekValue? with
    | none => failNext (if opener = '[' then .endInList else .endInObject)
    | some c =>
      if c = ',' ∧ mayFollow then take; return some (opener :: outer)
      else if c = closer then
        take
        match outer with
        | [] => return none
        | o :: os => skipClosers fuel true o os
      else if mayFollow then
        failNext (if opener = '[' then .expectedListEnd else .expectedObjectEnd)
      else return some (opener :: outer)

/-- Skip the key that an open object has next. -/
def skipKey : Reader Unit := do
  match ← peekValue? with
  | some '"' => skipString
  | some _ => failNext .keyNotString
  | none => failNext .endInObject
  colon

/-- Skip a value inside the open containers; any depth is allowed. -/
def skipFrom : Nat → List Char → Reader Unit
  | 0, _ => failHere .endInValue
  | fuel + 1, open_ => do
    let opened? ← match ← peekValue? with
      | none => failNext .endInValue
      | some 'n' => do take; word "ull".toList; pure none
      | some 't' => do take; word "rue".toList; pure none
      | some 'f' => do take; word "alse".toList; pure none
      | some '-' => do take; skipNumber; pure none
      | some '"' => do skipString; pure none
      | some '[' => do take; pure (some '[')
      | some '\x7b' => do take; pure (some '\x7b')
      | some c => do if c.isDigit then skipNumber; pure none else failNext .expectedValue
    let state := match opened?, open_ with
      | some o, os => some (false, o, os)
      | none, o :: os => some (true, o, os)
      | none, [] => none
    match state with
    | none => pure ()
    | some (mayFollow, o, os) =>
      match ← skipClosers (os.length + 2) mayFollow o os with
      | none => pure ()
      | some still =>
        if still.head? = some '\x7b' then skipKey
        skipFrom fuel still

/-- Skip one value of any kind. -/
def skipValue : Reader Unit := do skipFrom ((← get).rest.length + 1) []

end Reader

/-- The value that a text writes. -/
def parse (text : String) : Except Fault Json :=
  Reader.readAll (Reader.value Reader.nestingLimit) text

end ComponentRegistry.Json
