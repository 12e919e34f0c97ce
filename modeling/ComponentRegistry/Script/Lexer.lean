import ComponentRegistry.Script.Token
import ComponentRegistry.Text.Identifier

/-!
# Reading tokens

One token is read at a time, because what a character begins depends on where the parser stands: a
slash divides or begins a regular expression, a closing brace ends a block or goes on with a
template, and between tags there is text.
-/

namespace ComponentRegistry.Script

def isLineBreak (c : Char) : Bool :=
  c == '\n' || c == '\r' || c.toNat == 0x2028 || c.toNat == 0x2029

/-- Blanks between tokens that are no line breaks. -/
def isSpacing (c : Char) : Bool :=
  let n := c.toNat
  n == 0x20 || n == 9 || n == 11 || n == 12 || n == 0x85 || n == 0xA0 || n == 0x1680 ||
    (0x2000 ≤ n && n ≤ 0x200B) || n == 0x202F || n == 0x205F || n == 0x3000 || n == 0xFEFF

def isHexDigit (c : Char) : Bool :=
  c.isDigit || ('a' ≤ c && c ≤ 'f') || ('A' ≤ c && c ≤ 'F')

def hexValue (c : Char) : Nat :=
  if c.isDigit then c.toNat - '0'.toNat
  else if 'a' ≤ c then c.toNat - 'a'.toNat + 10
  else c.toNat - 'A'.toNat + 10

def hexNumber (cs : List Char) : Nat := cs.foldl (fun n c => n * 16 + hexValue c) 0

/-! ## Blanks and comments -/

inductive TriviaMode where
  | code
  | line
  | block (star : Bool)
  deriving DecidableEq, Repr

/-- What is left after blanks and comments. -/
structure Trivia where
  rest : List Char
  afterBreak : Bool
  /-- A block comment is not closed. -/
  unclosed : Bool

/-- Skip blanks and comments. `tags` allows the comment marks of old web pages. -/
def skipTrivia (tags : Bool) : TriviaMode → List Char → Bool → Trivia
  | .code, [], br => ⟨[], br, false⟩
  | .line, [], br => ⟨[], br, false⟩
  | .block _, [], br => ⟨[], br, true⟩
  | .line, c :: r, br =>
    if isLineBreak c then skipTrivia tags .code r true else skipTrivia tags .line r br
  | .block star, c :: r, br =>
    if star && c == '/' then skipTrivia tags .code r br
    else skipTrivia tags (.block (c == '*')) r (br || isLineBreak c)
  | .code, c :: r, br =>
    if isLineBreak c then skipTrivia tags .code r true
    else if isSpacing c then skipTrivia tags .code r br
    else if c == '/' then
      match r with
      | '/' :: s => skipTrivia tags .line s br
      | '*' :: s => skipTrivia tags (.block false) s br
      | _ => ⟨c :: r, br, false⟩
    else if c == '<' && tags then
      match r with
      | '!' :: '-' :: '-' :: s => skipTrivia tags .line s br
      | _ => ⟨c :: r, br, false⟩
    else if c == '-' && tags && br then
      match r with
      | '-' :: '>' :: s => skipTrivia tags .line s br
      | _ => ⟨c :: r, br, false⟩
    else ⟨c :: r, br, false⟩

/-! ## Pieces of tokens -/

/-- A token's extent: what it says, the text after it, and whether it is well formed. -/
structure Piece where
  kind : Token.Kind
  text : String
  rest : List Char
  bad : Bool
  escaped : Bool

def Piece.of (kind : Token.Kind) (text : String) (rest : List Char) : Piece :=
  ⟨kind, text, rest, false, false⟩

def Piece.invalid (rest : List Char) : Piece := ⟨.invalid, "", rest, true, false⟩

/-- The code point of a `\u` escape after its letter, in four digits or in braces. -/
def unicodeEscape? : List Char → Option (Nat × List Char)
  | '\x7b' :: r =>
    let ds := r.takeWhile isHexDigit
    match r.drop ds.length with
    | '\x7d' :: s => if ds.isEmpty || hexNumber ds > 0x10FFFF then none else some (hexNumber ds, s)
    | _ => none
  | a :: b :: c :: d :: r =>
    if [a, b, c, d].all isHexDigit then some (hexNumber [a, b, c, d], r) else none
  | _ => none

def isSurrogate (n : Nat) : Bool := 0xD800 ≤ n && n ≤ 0xDFFF

/-- The characters of a word, which may be written as escapes. -/
def wordTail : Nat → List Char → List Char → Bool → List Char × List Char × Bool × Bool
  | 0, acc, rest, escaped => (acc.reverse, rest, escaped, true)
  | fuel + 1, acc, rest, escaped =>
    match rest with
    | '\\' :: 'u' :: r =>
      match unicodeEscape? r with
      | some (n, s) =>
        let c := Char.ofNat n
        if !isSurrogate n && (if acc.isEmpty then isIdentifierStart c else isIdentifierPart c) then
          wordTail fuel (c :: acc) s true
        else (acc.reverse, s, true, true)
      | none => (acc.reverse, r, true, true)
    | '\\' :: r => (acc.reverse, r, escaped, true)
    | c :: r =>
      if (if acc.isEmpty then isIdentifierStart c else isIdentifierPart c) then
        wordTail fuel (c :: acc) r escaped
      else (acc.reverse, rest, escaped, acc.isEmpty)
    | [] => (acc.reverse, [], escaped, acc.isEmpty)
where
  isIdentifierStart := Text.isIdentifierStart
  isIdentifierPart := Text.isIdentifierPart

def readWord (kind : Token.Kind) (rest : List Char) : Piece :=
  let (cs, rest, escaped, bad) := wordTail (rest.length + 1) [] rest false
  ⟨kind, String.ofList cs, rest, bad, escaped⟩

/-- Digits that may be set apart by single underscores; true if an underscore stands wrong. -/
def digitsTail (isDigit : Char → Bool) : List Char → List Char × Bool
  | [] => ([], false)
  | '_' :: r =>
    match r with
    | c :: _ => if isDigit c then digitsTail isDigit r else (r, true)
    | [] => ([], true)
  | c :: r => if isDigit c then digitsTail isDigit r else (c :: r, false)

/-- Digits of which there has to be one. -/
def digitsPiece (isDigit : Char → Bool) (rest : List Char) : List Char × Bool :=
  match rest with
  | c :: r => if isDigit c then digitsTail isDigit r else (rest, true)
  | [] => ([], true)

/-- Nothing of a name may follow a number. -/
def endNumber (kind : Token.Kind) (rest : List Char) (bad : Bool) : Piece :=
  match rest with
  | c :: r =>
    if c.isDigit || Text.isIdentifierStart c || c == '\\' then ⟨.invalid, "", r, true, false⟩
    else ⟨kind, "", rest, bad, false⟩
  | [] => ⟨kind, "", [], bad, false⟩

def readExponent (rest : List Char) (bad : Bool) : Piece :=
  let digits := match rest with
    | '+' :: r => r
    | '-' :: r => r
    | r => r
  let (r, b) := digitsPiece Char.isDigit digits
  endNumber .number r (bad || b)

def afterFraction (rest : List Char) (bad : Bool) : Piece :=
  match rest with
  | 'e' :: r => readExponent r bad
  | 'E' :: r => readExponent r bad
  | r => endNumber .number r bad

/-- The fraction of a number whose point is taken. -/
def readFraction (rest : List Char) (bad : Bool) : Piece :=
  match rest with
  | c :: r =>
    if c.isDigit then
      let (s, b) := digitsTail Char.isDigit r
      afterFraction s (bad || b)
    else afterFraction rest bad
  | [] => afterFraction [] bad

/-- What may follow the digits of a whole number. -/
def afterInteger (rest : List Char) (bad : Bool) : Piece :=
  match rest with
  | '.' :: r => readFraction r bad
  | 'n' :: r => endNumber .bigInt r bad
  | r => afterFraction r bad

/-- The digits of a number with a radix mark. -/
def readRadix (isDigit : Char → Bool) (rest : List Char) : Piece :=
  let (r, bad) := digitsPiece isDigit rest
  match r with
  | 'n' :: s => endNumber .bigInt s bad
  | s => endNumber .number s bad

/-- A number that begins with this digit. -/
def readNumber (first : Char) (rest : List Char) : Piece :=
  if first == '0' then
    match rest with
    | 'x' :: r => readRadix isHexDigit r
    | 'X' :: r => readRadix isHexDigit r
    | 'o' :: r => readRadix (fun c => '0' ≤ c && c ≤ '7') r
    | 'O' :: r => readRadix (fun c => '0' ≤ c && c ≤ '7') r
    | 'b' :: r => readRadix (fun c => c == '0' || c == '1') r
    | 'B' :: r => readRadix (fun c => c == '0' || c == '1') r
    | c :: _ =>
      if c.isDigit then
        let ds := rest.takeWhile Char.isDigit
        let r := rest.drop ds.length
        if ds.any (fun d => d == '8' || d == '9') then
          match r with
          | '.' :: s => readFraction s false
          | s => afterFraction s false
        else endNumber .number r false
      else afterInteger rest false
    | [] => afterInteger [] false
  else
    let (r, bad) := digitsTail Char.isDigit rest
    afterInteger r bad

/-! ## Strings, templates and regular expressions -/

/-- One element of a string's value: a character, or a surrogate that stands alone. -/
inductive StringUnit where
  | char (c : Char)
  | surrogate (n : Nat)
  deriving DecidableEq, Repr

def fourHexDigits (n : Nat) : List Char :=
  let ds := Nat.toDigits 16 n
  List.replicate (4 - ds.length) '0' ++ ds

/-- The text of a string's value.  A lone surrogate is written as the replacement character and
its four digits; then a replacement character of the string itself is written so too. -/
def stringText (units : List StringUnit) : String :=
  let mark := Char.ofNat 0xFFFD
  let lone := units.any fun u => match u with
    | .surrogate _ => true
    | .char _ => false
  String.ofList (units.flatMap fun u => match u with
    | .surrogate n => mark :: fourHexDigits n
    | .char c => if lone && c == mark then mark :: fourHexDigits 0xFFFD else [c])

/-- What an escape after its backslash stands for, and the text after it; `none` if it has no
meaning. -/
def escapeUnits : List Char → Option (List StringUnit × List Char)
  | 'n' :: r => some ([.char '\n'], r)
  | 't' :: r => some ([.char '\t'], r)
  | 'r' :: r => some ([.char '\r'], r)
  | 'b' :: r => some ([.char (Char.ofNat 8)], r)
  | 'v' :: r => some ([.char (Char.ofNat 11)], r)
  | 'f' :: r => some ([.char (Char.ofNat 12)], r)
  | '\r' :: '\n' :: r => some ([], r)
  | 'x' :: a :: b :: r =>
    if isHexDigit a && isHexDigit b then some ([.char (Char.ofNat (hexNumber [a, b]))], r) else none
  | 'x' :: _ => none
  | 'u' :: r =>
    match unicodeEscape? r with
    | none => none
    | some (n, s) =>
      if 0xD800 ≤ n && n ≤ 0xDBFF then
        match s with
        | '\\' :: 'u' :: t =>
          match unicodeEscape? t with
          | some (m, v) =>
            if 0xDC00 ≤ m && m ≤ 0xDFFF then
              some ([.char (Char.ofNat (0x10000 + (n - 0xD800) * 0x400 + (m - 0xDC00)))], v)
            else some ([.surrogate n], s)
          | none => some ([.surrogate n], s)
        | _ => some ([.surrogate n], s)
      else if isSurrogate n then some ([.surrogate n], s)
      else some ([.char (Char.ofNat n)], s)
  | c :: r =>
    if isLineBreak c then some ([], r)
    else if '0' ≤ c && c ≤ '7' then
      -- up to three octal digits, of at most 255
      let more := (r.takeWhile fun d => '0' ≤ d && d ≤ '7').take (if c ≤ '3' then 2 else 1)
      let n := (c :: more).foldl (fun n d => n * 8 + (d.toNat - '0'.toNat)) 0
      some ([.char (Char.ofNat n)], r.drop more.length)
    else some ([.char c], r)
  | [] => none

/-- The value of a string up to its closing quote. -/
def stringTail (quote : Char) : Nat → List StringUnit → List Char → Piece
  | 0, _, rest => .invalid rest
  | fuel + 1, acc, rest =>
    match rest with
    | [] => .invalid []
    | '\\' :: r =>
      match escapeUnits r with
      | some (us, s) => stringTail quote fuel (us.reverse ++ acc) s
      | none =>
        let p := stringTail quote fuel acc r
        { p with bad := true }
    | c :: r =>
      if c == quote then .of .string (stringText acc.reverse) r
      else if c == '\n' || c == '\r' then .invalid rest
      else stringTail quote fuel (.char c :: acc) r

def readString (quote : Char) (rest : List Char) : Piece :=
  stringTail quote (rest.length + 1) [] rest

/-- An escape that is allowed in a template that is not read by a function. -/
def isTemplateEscape (rest : List Char) : Bool :=
  match rest with
  | '0' :: r => !(r.head?.any Char.isDigit)
  | c :: _ => if c.isDigit then false else (escapeUnits rest).isSome
  | [] => false

/-- A template up to its end or up to a substitution; `escaped` says an escape has no meaning. -/
def templateTail : List Char → Bool → Piece
  | [], _ => .invalid []
  | '\x60' :: r, odd => ⟨.template true, "", r, false, odd⟩
  | '$' :: '\x7b' :: r, odd => ⟨.template false, "", r, false, odd⟩
  | '\\' :: c :: r, odd => templateTail r (odd || !isTemplateEscape (c :: r))
  | _ :: r, odd => templateTail r odd

/-- The flags of a regular expression; true if one is unknown or stands twice. -/
def regexFlags : List Char → List Char → Bool → List Char × Bool
  | [], _, bad => ([], bad)
  | c :: r, seen, bad =>
    if c.isAlphanum || c == '$' || c == '_' then
      let known := "dgimsuvy".toList.contains c && !seen.contains c
      regexFlags r (c :: seen) (bad || !known)
    else (c :: r, bad)

/-- A regular expression after its first slash. -/
def regexTail : List Char → Bool → Piece
  | [], _ => .invalid []
  | '\\' :: c :: r, inClass => if isLineBreak c then .invalid r else regexTail r inClass
  | c :: r, inClass =>
    if isLineBreak c then .invalid r
    else if c == '[' then regexTail r true
    else if c == ']' then regexTail r false
    else if c == '/' && !inClass then
      let (s, bad) := regexFlags r [] false
      ⟨.regex, "", s, bad, false⟩
    else regexTail r inClass

/-! ## Markup -/

/-- Text between tags, up to a tag or a brace; a stray closer in it is refused. -/
def markupText : List Char → Bool → Piece
  | [], bad => ⟨.markupText, "", [], bad, false⟩
  | c :: r, bad =>
    if c == '<' || c == '\x7b' then ⟨.markupText, "", c :: r, bad, false⟩
    else markupText r (bad || c == '>' || c == '\x7d')

/-- A quoted value of an attribute, which has no escapes and may span lines. -/
def attributeText (quote : Char) : List Char → Piece
  | [] => .invalid []
  | c :: r => if c == quote then .of .string "" r else attributeText quote r

/-! ## Tokens -/

/-- Punctuators, longer ones first. -/
def punctuators : List String :=
  ["...", "===", "!==", "**=", "<<=", "&&=", "||=", "??=",
   "=>", "==", "!=", "<=", "++", "--", "+=", "-=", "*=", "/=", "%=", "&=", "|=", "^=",
   "**", "<<", "&&", "||", "??", "?.",
   "\x7b", "\x7d", "(", ")", "[", "]", ";", ",", "<", ">", "+", "-", "*", "/", "%", "&", "|", "^",
   "!", "~", "?", ":", "=", ".", "@"]

/-- Operators that begin with `>`; they are put together only where an operator is read. -/
def angleOperators : List String := [">>>=", ">>>", ">>=", ">>", ">=", ">"]

/-- The first of the spellings that the text starts with. -/
def spelled? (spellings : List String) (rest : List Char) : Option (String × List Char) :=
  spellings.findSome? fun p => (Text.stripStart? p.toList rest).map fun r => (p, r)

def readPunctuator (rest : List Char) : Piece :=
  match rest with
  | '>' :: r => .of .punctuator ">" r
  | '?' :: '.' :: d :: r =>
    if d.isDigit then .of .punctuator "?" ('.' :: d :: r) else .of .punctuator "?." (d :: r)
  | _ :: r =>
    match spelled? punctuators rest with
    | some (p, s) => .of .punctuator p s
    | none => .invalid r
  | [] => .of .finish "" []

/-- The token that begins here. -/
def readPiece (rest : List Char) : Piece :=
  match rest with
  | [] => .of .finish "" []
  | c :: r =>
    if c.isDigit then readNumber c r
    else if Text.isIdentifierStart c || c == '\\' then readWord .word rest
    else if c == '#' then readWord .privateName r
    else if c == '"' || c == '\'' then readString c r
    else if c == '\x60' then templateTail r false
    else if c == '.' && r.head?.any Char.isDigit then readFraction r false
    else readPunctuator rest

end ComponentRegistry.Script
