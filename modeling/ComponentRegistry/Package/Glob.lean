import ComponentRegistry.Disk.Basic

/-!
# Glob patterns

Patterns of paths with `?`, `*`, character classes, and `**` for any number of directories.  A
pattern that is not well formed matches nothing.
-/

namespace ComponentRegistry.Glob

/-- One element of a class of characters. -/
inductive Range where
  | one (c : Char)
  | span (first last : Char)
  deriving DecidableEq, Repr

def Range.contains (c : Char) : Range → Bool
  | .one d => c == d
  | .span a b => a ≤ c && c ≤ b

inductive Token where
  | char (c : Char)
  | anyChar
  | anySequence
  /-- `**`: any number of directories. -/
  | anyDirectories
  | within (ranges : List Range)
  | except (ranges : List Range)
  deriving DecidableEq, Repr

/-- The elements of a class between its brackets. -/
def ranges : List Char → List Range
  | a :: '-' :: b :: r => .span a b :: ranges r
  | a :: r => .one a :: ranges r
  | [] => []

/-- A class after its opening bracket: its members, and what follows.  Its first character is a
member even if it is a bracket. -/
def class? (first : Char) (rest : List Char) : Option (List Range × List Char) :=
  let body := rest.takeWhile (· ≠ ']')
  match rest.drop body.length with
  | _ :: after => some (ranges (first :: body), after)
  | [] => none

/-- The tokens of a pattern; `atStart` says that a name begins here. -/
def tokens? : Nat → Bool → List Char → Option (List Token)
  | 0, _, _ => none
  | fuel + 1, atStart, cs =>
    match cs with
    | [] => some []
    | '?' :: r => (tokens? fuel false r).map (Token.anyChar :: ·)
    | '*' :: '*' :: '*' :: _ => none
    | '*' :: '*' :: r =>
      if !atStart then none
      else match r with
        | [] => some [.anyDirectories]
        | '/' :: r => (tokens? fuel true r).map (Token.anyDirectories :: ·)
        | _ => none
    | '*' :: r => (tokens? fuel false r).map (Token.anySequence :: ·)
    | '[' :: '!' :: first :: r =>
      match class? first r with
      | some (rs, after) => (tokens? fuel false after).map (Token.except rs :: ·)
      | none => none
    | '[' :: '!' :: _ => none
    | '[' :: first :: r =>
      match class? first r with
      | some (rs, after) => (tokens? fuel false after).map (Token.within rs :: ·)
      | none => none
    | '[' :: _ => none
    | c :: r => (tokens? fuel (c == '/') r).map (Token.char c :: ·)

/-- The tokens of a well-formed pattern. -/
def pattern? (cs : List Char) : Option (List Token) := tokens? (cs.length + 1) true cs

/-- An end of the name passes, and it is not the whole. -/
def anyEnd (passes : List Char → Bool) : List Char → Bool
  | [] => false
  | _ :: name => passes name || anyEnd passes name

/-- A name matches the tokens. -/
def matchesName : List Token → List Char → Bool
  | [], name => name.isEmpty
  | .char c :: ts, d :: name => c == d && matchesName ts name
  | .anyChar :: ts, _ :: name => matchesName ts name
  | .within rs :: ts, d :: name => rs.any (Range.contains d) && matchesName ts name
  | .except rs :: ts, d :: name => !rs.any (Range.contains d) && matchesName ts name
  | .anySequence :: ts, name => matchesName ts name || anyEnd (matchesName ts) name
  | .anyDirectories :: ts, name => matchesName ts name || anyEnd (matchesName ts) name
  | _ :: _, [] => false

/-- The text of a pattern without special characters. -/
def plain? (ts : List Token) : Option String :=
  (ts.mapM fun t => match t with
    | Token.char c => some c
    | _ => none).map String.ofList

def isRecursive (ts : List Token) : Bool := ts.contains .anyDirectories

/-- The paths of what a directory holds, or nothing. -/
def children (d : Disk) (dir : Path) : List (String × Path) :=
  match d.locate dir with
  | .error _ => []
  | .ok l =>
    if d.node? l = some .directory then
      (d.entries l).filterMap fun (name, _) => (Text.text? name).map fun s => (s, dir.child name)
    else []

/-- Something stands at a path; a link counts even if it leads nowhere. -/
def stands (d : Disk) (dir : Path) (name : String) : Bool :=
  (d.stat (dir / name)).isOk ||
    match d.locate dir with
    | .error _ => false
    | .ok l => (d.node? (l ++ [Text.ofChars name.toList])).isSome

/-- An entry is matched by the patterns after `**`; `rest` goes on behind the name that it has. -/
def matchHere (d : Disk) (rest : List (List Token) → Path → List Path) :
    List (List Token) → Path → List Path
  | [], path => if d.isDirectory path then [path] else []
  | next :: more, path =>
    if isRecursive next then matchHere d rest more path
    else if matchesName next path.fileNameShown.toList then rest more path
    else []

/-- The paths below `dir` that match the patterns, one for each name on the way. -/
def matchesBelow (d : Disk) : Nat → List (List Token) → Path → List Path
  | 0, _, _ => []
  | _ + 1, [], path => [path]
  | fuel + 1, ts :: more, dir =>
    match plain? ts with
    | some name =>
      let special := name = "." || name = ".."
      if (special && d.isDirectory dir) || (!special && stands d dir name) then
        matchesBelow d fuel more (dir / name)
      else []
    | none =>
      if isRecursive ts then
        (children d dir).flatMap fun (_, path) =>
          let deeper := if d.isDirectory path then matchesBelow d fuel (ts :: more) path else []
          deeper ++ matchHere d (matchesBelow d fuel) more path
      else
        let listed := (children d dir).flatMap fun (name, path) =>
          if matchesName ts name.toList then matchesBelow d fuel more path else []
        -- a pattern that begins with a dot also matches the directory itself and the one above
        let turns := [".", ".."].flatMap fun turn =>
          let fits := ts.head? = some (Token.char '.') && matchesName ts turn.toList
          if d.isDirectory dir && fits then matchesBelow d fuel more (dir / turn)
          else []
        listed ++ turns

/-- The tokens of the names of an absolute pattern, if it is well formed as a whole and name by
name. -/
def names? (pattern : String) : Option (List (List Token)) := do
  let _ ← pattern? pattern.toList
  (Text.splitAt '/' pattern.toList).tail.mapM pattern?

/-- The paths on a disk that match an absolute pattern.  Each step uses up one of its names, or is
one of `**` into a directory, and a path that leads somewhere has fewer names than bytes. -/
def paths (d : Disk) (pattern : String) : List Path :=
  match names? pattern with
  | none => []
  | some names => matchesBelow d (names.length + Disk.pathLimit + 1) names ⟨[Path.separator]⟩

end ComponentRegistry.Glob
