import ComponentRegistry.Path.Relative

/-!
# Tokens of source files

The dialect that a file's name selects, the tokens that its text is made of, and the classes of
words: those that are always keywords, and those that only mean something in their place.
-/

namespace ComponentRegistry.Script

/-- The grammar that a source file is read by. -/
structure Dialect where
  /-- Type annotations and type declarations are allowed. -/
  typed : Bool
  /-- Markup elements are allowed as expressions. -/
  markup : Bool
  /-- The file is a module, in which `await` is a keyword. -/
  strict : Bool
  /-- The file only declares; nothing needs an initial value. -/
  ambient : Bool
  deriving DecidableEq, Repr

/-- Extensions of the files that are parsed. -/
def parsedExtensions : List String := ["js", "jsx", "ts", "tsx", "mjs", "cjs", "mts", "cts"]

/-- A declaration file: `d` is one of the last two parts before `.ts`, or the last one before
`.mts` and `.cts`. -/
def isDeclarationName (name : List Char) (extension : String) : Bool :=
  let parts := (Text.splitAt '.' (name.take (name.length - extension.length - 1))).reverse
  if extension = "ts" then (parts.take 2).contains ['d']
  else (extension = "mts" || extension = "cts") && parts.head? = some ['d'] && parts.length > 1

/-- The dialect of a file, if it is one that is parsed. -/
def Dialect.ofPath? (path : Path) : Option Dialect := do
  let extension ← path.extensionText?
  if !parsedExtensions.contains extension then none
  else some {
    typed := ["ts", "tsx", "mts", "cts"].contains extension
    markup := ["jsx", "tsx"].contains extension
    strict := !(["cjs", "cts"].contains extension)
    ambient := isDeclarationName path.fileNameShown.toList extension }

inductive Token.Kind where
  | word
  | privateName
  | punctuator
  | string
  | number
  | bigInt
  | regex
  /-- A template up to its end or up to the first `${`. -/
  | template (complete : Bool)
  /-- Text between the tags of an element. -/
  | markupText
  /-- Characters that make no token. -/
  | invalid
  | finish
  deriving DecidableEq, Repr

structure Token where
  kind : Token.Kind
  /-- The word as meant, the punctuator as written, or the value of a string. -/
  text : String
  /-- A line break lies between it and the token before. -/
  afterBreak : Bool
  /-- A word written with escapes, or a template with an escape that has no meaning. -/
  escaped : Bool
  deriving DecidableEq, Repr

/-- Words that are never identifiers. -/
def reservedWords : List String :=
  ["break", "case", "catch", "class", "const", "continue", "debugger", "default", "delete", "do",
   "else", "enum", "export", "extends", "finally", "for", "function", "if", "import", "in",
   "instanceof", "new", "return", "super", "switch", "this", "throw", "try", "typeof", "var",
   "void", "while", "with", "true", "false", "null"]

/-- Words that have a meaning in some place; written with escapes they lose it. -/
def contextualWords : List String :=
  ["await", "yield", "async", "from", "get", "of", "set", "accessor", "source", "defer", "abstract",
   "as", "asserts", "assert", "declare", "infer", "is", "keyof", "module", "namespace", "out",
   "readonly", "require", "satisfies", "type", "unique", "using", "global", "override",
   "implements", "interface", "let", "package", "private", "protected", "public", "static"]

/-- Modifiers of declarations and class members. -/
def modifierWords : List String :=
  ["abstract", "accessor", "async", "const", "declare", "default", "export", "in", "out",
   "override", "private", "protected", "public", "readonly", "static"]

namespace Token

def isPunctuator (t : Token) (p : String) : Bool := t.kind == .punctuator && t.text == p

def isWord (t : Token) (w : String) : Bool := t.kind == .word && t.text == w

/-- A word that can name something. -/
def isIdentifier (t : Token) : Bool := t.kind == .word && !reservedWords.contains t.text

/-- A name as it can follow a point or stand as a key. -/
def isKeyName (t : Token) : Bool :=
  t.kind == .word || t.kind == .string || t.kind == .number || t.kind == .bigInt ||
    t.kind == .privateName

/-- A literal that is one token. -/
def isLiteral (t : Token) : Bool :=
  t.kind == .string || t.kind == .number || t.kind == .bigInt ||
    t.isWord "true" || t.isWord "false" || t.isWord "null"

end Token

/-- Operators that assign. -/
def assignmentOperators : List String :=
  ["=", "+=", "-=", "*=", "/=", "%=", "**=", "<<=", ">>=", ">>>=", "&=", "|=", "^=", "&&=", "||=",
   "??="]

/-- How tightly a binary operator binds. -/
def binaryPrecedence? (op : String) : Option Nat :=
  match op with
  | "??" => some 1
  | "||" => some 2
  | "&&" => some 3
  | "|" => some 4
  | "^" => some 5
  | "&" => some 6
  | "==" | "!=" | "===" | "!==" => some 7
  | "<" | ">" | "<=" | ">=" | "instanceof" | "in" | "as" | "satisfies" => some 8
  | "<<" | ">>" | ">>>" => some 9
  | "+" | "-" => some 10
  | "*" | "/" | "%" => some 11
  | "**" => some 12
  | _ => none

end ComponentRegistry.Script
