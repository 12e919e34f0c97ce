import ComponentRegistry.Json.Basic

/-!
# Writing JSON text

Values are written with two blanks of indentation a level, one element or member a line; empty
containers stay on their line.
-/

namespace ComponentRegistry.Json

/-- How one character stands in a string: controls by their short or four-digit escape. -/
def escapedChar (c : Char) : List Char :=
  if c = '"' then ['\\', '"']
  else if c = '\\' then ['\\', '\\']
  else if c = '\n' then ['\\', 'n']
  else if c = '\r' then ['\\', 'r']
  else if c = '\t' then ['\\', 't']
  else if c.toNat = 8 then ['\\', 'b']
  else if c.toNat = 12 then ['\\', 'f']
  else if c.toNat < 32 then
    ['\\', 'u', '0', '0', Nat.digitChar (c.toNat / 16), Nat.digitChar (c.toNat % 16)]
  else [c]

/-- A string between its quotes. -/
def quotedChars (s : String) : List Char := '"' :: s.toList.flatMap escapedChar ++ ['"']

/-- A line break and the indentation of a level. -/
def lineBreak (level : Nat) : List Char := '\n' :: List.replicate (2 * level) ' '

mutual

/-- The text of a value that stands on a level. -/
def print (level : Nat) : Json → List Char
  | .null => "null".toList
  | .bool b => (if b then "true" else "false").toList
  | .number n => n.text.toList
  | .string s => quotedChars s
  | .array [] => ['[', ']']
  | .array (v :: vs) =>
    '[' :: lineBreak (level + 1) ++ print (level + 1) v ++ printItems (level + 1) vs
      ++ lineBreak level ++ [']']
  | .object [] => ['\x7b', '\x7d']
  | .object ((k, v) :: ms) =>
    '\x7b' :: lineBreak (level + 1) ++ quotedChars k ++ [':', ' '] ++ print (level + 1) v
      ++ printMembers (level + 1) ms ++ lineBreak level ++ ['\x7d']

/-- The elements after the first. -/
def printItems (level : Nat) : List Json → List Char
  | [] => []
  | v :: vs => ',' :: lineBreak level ++ print level v ++ printItems level vs

/-- The members after the first. -/
def printMembers (level : Nat) : List (String × Json) → List Char
  | [] => []
  | (k, v) :: ms =>
    ',' :: lineBreak level ++ quotedChars k ++ [':', ' '] ++ print level v ++ printMembers level ms

end

/-- The indented text of a value. -/
def pretty (v : Json) : String := String.ofList (print 0 v)

end ComponentRegistry.Json
