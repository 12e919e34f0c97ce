import ComponentRegistry.Path.Basic

/-!
# Relative paths and recorded paths

How a path is expressed from another one, and how paths are written into manifests: with forward
slashes, and under a configured directory.
-/

namespace ComponentRegistry.Path

/-- Length of the longest common start of two lists. -/
def commonLength {α : Type} [DecidableEq α] : List α → List α → Nat
  | a :: s, b :: t => if a = b then commonLength s t + 1 else 0
  | _, _ => 0

/-- `p` as seen from `base`: what follows `base`, or up with `..` and down again; `p` itself if the
two have no component in common. -/
def relative (p base : Path) : Path :=
  match p.stripStart? base with
  | some rest => rest
  | none =>
    let common := commonLength p.components base.components
    if common = 0 then p
    else
      let up := List.replicate (base.components.length - common) (⟨dotDot⟩ : Path)
      let down := (p.components.drop common).map Component.path
      (up ++ down).foldl join empty

/-- The text a component has in a recorded path. -/
def Component.recorded? : Component → Option String
  | .root => some ""
  | .current => none
  | .parent => some ".."
  | .normal n => some (Text.shown n)

/-- The components with slashes between them. -/
def forwardSlashes (p : Path) : String :=
  "/".intercalate (p.components.filterMap Component.recorded?)

/-- The directory's text with slashes for backslashes and no slash at its end. -/
def forwardDirectory (dir : String) : List Char :=
  ((dir.toList.map fun c => if c = '\\' then '/' else c).reverse.dropWhile (· = '/')).reverse

/-- A file name under a configured directory, with one slash between them. -/
def joinForward (dir fileName : String) : String :=
  let d := forwardDirectory dir
  if d.isEmpty then fileName else String.ofList (d ++ '/' :: fileName.toList)

/-- Where packages are installed. -/
def installDirectory : Name := Text.ofChars "node_modules".toList

/-- Some component is the directory where packages are installed. -/
def isInstalled (p : Path) : Bool := p.components.contains (.normal installDirectory)

/-- A file name up to its first dot. -/
def baseName (fileName : String) : String := String.ofList (fileName.toList.takeWhile (· ≠ '.'))

end ComponentRegistry.Path
