import ComponentRegistry.Json.Basic
import ComponentRegistry.Resolver.ProjectConfig

/-!
# Candidates

The files that a path or an entry of a package's `exports` may stand for, in the order in which
they are tried.
-/

namespace ComponentRegistry.Resolver

/-- Extensions that a path may lack, in the order they are tried. -/
def extensions : List String := ["ts", "tsx", "d.ts", "js", "jsx", "mjs", "cjs", "json"]

/-- The extensions of sources that an extension of output stands for. -/
def sourceExtensions : String → List String
  | "js" => ["ts", "tsx"]
  | "jsx" => ["tsx"]
  | "mjs" => ["mts"]
  | "cjs" => ["cts"]
  | _ => []

/-- The files that a path may stand for: itself, with an extension added, with the extension of a
source, and the index of a directory. -/
def candidates (isDirectory : Bool) (path : Path) : List Path :=
  let added := extensions.map fun ext => Path.ofString (path.shown ++ "." ++ ext)
  let swapped := (path.extensionText?.elim [] sourceExtensions).map path.withExtension
  let indexes :=
    if isDirectory then extensions.map fun ext => path / ("index." ++ ext) else []
  path :: added ++ swapped ++ indexes

/-- The conditions of exports, in the order they are tried. -/
def conditions : List String := ["types", "import", "default", "require", "node"]

mutual

/-- The targets of an entry of `exports`, in the order they are tried. -/
def targets : Json → List String
  | .string target => [target]
  | .array items => targetsOfItems items
  | .object members =>
    conditions.flatMap fun condition =>
      (entryValue? condition (targetsOfMembers members)).getD []
  | _ => []

def targetsOfItems : List Json → List String
  | [] => []
  | v :: more => targets v ++ targetsOfItems more

def targetsOfMembers : List (String × Json) → List (String × List String)
  | [] => []
  | (key, v) :: more => (key, targets v) :: targetsOfMembers more

end

/-- The files of an entry; captured text stands for the star of its targets. -/
def exportFiles (dir : Path) (entry : Json) (captured : List Char) : List Path :=
  (targets entry).map fun target => dir / PathMapping.fill target captured

/-- The text that stands for the star of a key, if the requested key has its form. -/
def captureKey? (key requested : String) : Option (List Char) :=
  (Text.splitOnce? '*' key.toList).bind fun (before, after) =>
    (Text.stripStart? before requested.toList).bind (Text.stripEnd? after)

/-- The key of `exports` for a module of the package. -/
def exportKey : Option String → String
  | some subpath => "./" ++ subpath
  | none => "."

/-- The members are modules of the package, not conditions. -/
def listsModules (members : List (String × Json)) : Bool :=
  members.any fun (key, _) => Text.startsWith ['.'] key.toList

/-- The files that `exports` offers for a module of the package in `dir`. -/
def exportCandidates (dir : Path) (exports : Json) (subpath : Option String) : List Path :=
  match exports with
  | .object members =>
    if listsModules members then
      match entryValue? (exportKey subpath) members with
      | some entry => exportFiles dir entry []
      | none => members.flatMap fun (key, entry) =>
          match captureKey? key (exportKey subpath) with
          | some captured => exportFiles dir entry captured
          | none => []
    else if subpath.isNone then exportFiles dir exports []
    else []
  | .string _ => if subpath.isNone then exportFiles dir exports [] else []
  | .array _ => if subpath.isNone then exportFiles dir exports [] else []
  | _ => []

/-- A bare specifier split into the name of its package and the module below it; the name of a
scoped package has two segments. -/
def splitSpecifier (specifier : String) : String × Option String :=
  let segments := Text.splitAt '/' specifier.toList
  let count := if Text.startsWith ['@'] specifier.toList then 2 else 1
  let name := Text.joinWith '/' (segments.take count)
  let below := Text.joinWith '/' (segments.drop count)
  (String.ofList name, if below.isEmpty then none else some (String.ofList below))

end ComponentRegistry.Resolver
