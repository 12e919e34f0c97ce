import ComponentRegistry.Text.Blank

/-!
# JSON with comments

Project configurations may hold line and block comments, and commas after the last element.  Both
are taken out before the text is read as JSON; the literals of strings stay as they are, whatever
they hold.
-/

namespace ComponentRegistry.Json

/-- Where the comment scanner stands. -/
inductive CommentMode where
  | code
  | string
  | escaped
  | line
  /-- In a block comment; the flag says that the character before was a star of its body. -/
  | block (star : Bool)
  deriving DecidableEq, Repr

/-- The text without its comments; a line comment leaves its line feed. -/
def stripCommentsFrom : CommentMode → List Char → List Char
  | _, [] => []
  | .string, c :: r =>
    c :: stripCommentsFrom (if c = '\\' then .escaped else if c = '"' then .code else .string) r
  | .escaped, c :: r => c :: stripCommentsFrom .string r
  | .line, c :: r =>
    if c = '\n' then '\n' :: stripCommentsFrom .code r else stripCommentsFrom .line r
  | .block star, c :: r =>
    if star && c = '/' then stripCommentsFrom .code r else stripCommentsFrom (.block (c = '*')) r
  | .code, '"' :: r => '"' :: stripCommentsFrom .string r
  | .code, '/' :: '/' :: r => stripCommentsFrom .line r
  | .code, '/' :: '*' :: r => stripCommentsFrom (.block false) r
  | .code, c :: r => c :: stripCommentsFrom .code r

def stripComments (text : List Char) : List Char := stripCommentsFrom .code text

/-- The next character that is no blank closes a container. -/
def closesNext (text : List Char) : Bool :=
  match Text.trimStart text with
  | c :: _ => c = '\x7d' || c = ']'
  | [] => false

/-- Where the comma scanner stands. -/
inductive CommaMode where
  | code
  | string
  | escaped
  deriving DecidableEq, Repr

/-- The text without the commas that stand before a closing bracket or brace. -/
def stripTrailingCommasFrom : CommaMode → List Char → List Char
  | _, [] => []
  | .string, c :: r =>
    c :: stripTrailingCommasFrom
      (if c = '\\' then .escaped else if c = '"' then .code else .string) r
  | .escaped, c :: r => c :: stripTrailingCommasFrom .string r
  | .code, c :: r =>
    if c = '"' then c :: stripTrailingCommasFrom .string r
    else if c = ',' && closesNext r then stripTrailingCommasFrom .code r
    else c :: stripTrailingCommasFrom .code r

def stripTrailingCommas (text : List Char) : List Char := stripTrailingCommasFrom .code text

/-- The JSON text of a text with comments. -/
def stripExtras (text : String) : String :=
  String.ofList (stripTrailingCommas (stripComments text.toList))

end ComponentRegistry.Json
