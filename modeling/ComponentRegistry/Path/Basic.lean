import ComponentRegistry.Text.Search
import ComponentRegistry.Text.Utf8

/-!
# Paths

A path is the text as it was written; nothing is normalised.  What an operation sees of it is its
list of components: the root, a leading `.`, `..` steps and names.  Empty segments and inner `.`
segments are no components, so `a//b/./` and `a/b` have the same ones.
-/

namespace ComponentRegistry

open Text (Glyph)

/-- One name of a path: a segment between slashes. -/
abbrev Name := List Glyph

/-- A path as written. -/
structure Path where
  glyphs : List Glyph
  deriving DecidableEq, Repr

namespace Path

/-- What stands between the names of a path. -/
def separator : Glyph := .char '/'

/-- The segment `.`. -/
def dot : Name := Text.ofChars ['.']

/-- The segment `..`. -/
def dotDot : Name := Text.ofChars ['.', '.']

def ofString (s : String) : Path := ⟨Text.ofChars s.toList⟩

def ofBytes (bytes : List UInt8) : Path := ⟨Text.glyphs bytes⟩

def ofName (n : Name) : Path := ⟨n⟩

/-- The path of no characters. -/
def empty : Path := ⟨[]⟩

/-- The path's text, with a replacement character for stray bytes. -/
def shown (p : Path) : String := Text.shown p.glyphs

/-- The path's text, if it is all characters. -/
def text? (p : Path) : Option String := Text.text? p.glyphs

def isEmpty (p : Path) : Bool := p.glyphs.isEmpty

/-- One step of a path. -/
inductive Component where
  | root
  | current
  | parent
  | normal (name : Name)
  deriving DecidableEq, Repr

/-- How a path starts, before its names. -/
inductive Anchor where
  | root
  | current
  | none
  deriving DecidableEq, Repr

/-- The start of a path and the segments that follow it. -/
def parts (p : Path) : Anchor × List Name :=
  match Text.splitAt separator p.glyphs with
  | [] => (.none, [])
  | [s] => if s = dot then (.current, []) else (.none, [s])
  | s :: t :: rest =>
    if s = [] then (.root, t :: rest)
    else if s = dot then (.current, t :: rest)
    else (.none, s :: t :: rest)

/-- A segment that is a component. -/
def isStep (s : Name) : Bool := s != [] && s != dot

def Component.ofName (s : Name) : Component := if s = dotDot then .parent else .normal s

def Anchor.components : Anchor → List Component
  | .root => [.root]
  | .current => [.current]
  | .none => []

/-- The components of a path, first to last. -/
def components (p : Path) : List Component :=
  p.parts.1.components ++ (p.parts.2.filter isStep).map Component.ofName

/-- The path is one of these, also if it is spelled in another way. -/
def isAmong (p : Path) (paths : List Path) : Bool :=
  paths.any fun q => q.components = p.components

/-- The segments up to the last component. -/
def trimEnd (segments : List Name) : List Name :=
  (segments.reverse.dropWhile (fun s => !isStep s)).reverse

/-- The segments from the first component on. -/
def trimStart (segments : List Name) : List Name := segments.dropWhile (fun s => !isStep s)

/-- The path written with this start and these segments. -/
def render (a : Anchor) (segments : List Name) : Path :=
  let body := Text.joinWith separator segments
  match a with
  | .root => ⟨separator :: body⟩
  | .current => if segments.isEmpty then ⟨dot⟩ else ⟨dot ++ separator :: body⟩
  | .none => ⟨body⟩

def isAbsolute (p : Path) : Bool := p.parts.1 == .root

/-- `p` seen from `base`: an absolute `p` replaces it. -/
def join (base p : Path) : Path :=
  if p.isAbsolute || base.isEmpty then p
  else if base.glyphs.getLast? = some separator then ⟨base.glyphs ++ p.glyphs⟩
  else ⟨base.glyphs ++ separator :: p.glyphs⟩

/-- `base` with one more name. -/
def child (base : Path) (name : Name) : Path := base.join (ofName name)

instance : HDiv Path String Path := ⟨fun base part => base.join (ofString part)⟩

/-- The paths above the segments, which are given last first. -/
def parentsOf (a : Anchor) : List Name → List Path
  | [] => if a = .current then [empty] else []
  | s :: rest =>
    if isStep s then render a (trimEnd rest.reverse) :: parentsOf a rest else parentsOf a rest

/-- The paths above `p`, nearest first. -/
def parents (p : Path) : List Path := parentsOf p.parts.1 p.parts.2.reverse

/-- The path without its last component. -/
def parent? (p : Path) : Option Path := p.parents.head?

/-- `p` and the paths above it, nearest first. -/
def ancestors (p : Path) : List Path := p :: p.parents

/-- The last component, if it is a name. -/
def fileName? (p : Path) : Option Name :=
  match (trimEnd p.parts.2).getLast? with
  | some s => if s = dotDot then none else some s
  | none => none

/-- A name cut at its last dot, unless that is its first character. -/
def splitName (n : Name) : Name × Option Name :=
  let ext := (n.reverse.takeWhile (· ≠ .char '.')).reverse
  let stem := n.take (n.length - ext.length - 1)
  if ext.length = n.length || stem.isEmpty || n = dotDot then (n, none) else (stem, some ext)

/-- The file name up to its last dot. -/
def stem? (p : Path) : Option Name := p.fileName?.map fun n => (splitName n).1

/-- The file name from its last dot on. -/
def extension? (p : Path) : Option Name := p.fileName?.bind fun n => (splitName n).2

/-- The extension, if it is text. -/
def extensionText? (p : Path) : Option String := p.extension?.bind Text.text?

/-- The file name as shown; empty if there is none. -/
def fileNameShown (p : Path) : String := (p.fileName?.map Text.shown).getD ""

/-- `p` with another extension; unchanged without a file name. -/
def withExtension (p : Path) (ext : String) : Path :=
  match p.stem? with
  | none => p
  | some stem =>
    render p.parts.1 ((trimEnd p.parts.2).dropLast ++ [stem ++ Text.ofChars ('.' :: ext.toList)])

/-- The components of `base` begin those of `p`. -/
def startsWith (p base : Path) : Bool := Text.startsWith base.components p.components

/-- `segments` after their first `n` components. -/
def dropSteps : Nat → List Name → List Name
  | 0, segments => segments
  | _ + 1, [] => []
  | n + 1, s :: rest => if isStep s then dropSteps n rest else dropSteps (n + 1) rest

/-- What is left of `p` after the components of `base`. -/
def stripStart? (p base : Path) : Option Path :=
  if !p.startsWith base then none
  else match base.components.length with
    | 0 => some (render p.parts.1 (trimEnd p.parts.2))
    | n + 1 =>
      let steps := if p.parts.1 = .none then n + 1 else n
      some (render .none (trimStart (dropSteps steps (trimEnd p.parts.2))))

/-- The text of one component. -/
def Component.path : Component → Path
  | .root => ⟨[separator]⟩
  | .current => ⟨dot⟩
  | .parent => ⟨dotDot⟩
  | .normal n => ⟨n⟩

end Path

end ComponentRegistry
