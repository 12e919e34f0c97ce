import ComponentRegistry.Package.Basic
import ComponentRegistry.Resolver.Candidates

/-!
# Resolving specifiers

From the specifier of an import to the file it names.  Path mappings come first; a relative or
absolute specifier is then a path, and any other names a package, or a file below the base
directory.  Whether files exist and what package descriptions say is asked through a record of
look-ups, so that the same rules run with and without a memory of earlier answers.
-/

namespace ComponentRegistry

/-- What resolution asks about files. -/
structure Lookups (m : Type → Type) where
  isFile : Path → m Bool
  /-- The package description in a file, if it can be read. -/
  package? : Path → m (Option Package)

namespace Lookups

/-- The description in a file that is there. -/
def readPackage? (d : Disk) (file : Path) : Option Package := (Package.load d file).toOption

/-- Look-ups that ask the disk each time. -/
def direct (d : Disk) : Lookups Id where
  isFile := d.isFile
  package? file := if d.isFile file then readPackage? d file else none

end Lookups

structure Resolver where
  config? : Option ProjectConfig
  deriving DecidableEq, Repr

namespace Resolver

/-- The resolver for files in and below a directory. -/
def around (d : Disk) (start : Path) : Resolver := ⟨ProjectConfig.discover d start⟩

def mappings (r : Resolver) : List PathMapping := r.config?.elim [] ProjectConfig.mappings

/-- The specifier begins as an alias of the project does. -/
def isAlias (r : Resolver) (specifier : String) : Bool :=
  Text.startsWith "@/".toList specifier.toList ||
    r.mappings.any fun m => match m.after? with
      | some _ => m.before ≠ "" && Text.startsWith m.before.toList specifier.toList
      | none => specifier == m.before

/-- The specifier names code of the project, not a package. -/
def isLocal (r : Resolver) (specifier : String) : Bool :=
  Text.startsWith ['.'] specifier.toList || r.isAlias specifier

section
variable {m : Type → Type} [Monad m]

/-- The first path that is a file. -/
def firstFile? (look : Lookups m) : List Path → m (Option Path)
  | [] => pure none
  | path :: more => do if ← look.isFile path then pure (some path) else firstFile? look more

/-- The first answer of several questions. -/
def firstAnswer? {α : Type} (ask : α → m (Option Path)) : List α → m (Option Path)
  | [] => pure none
  | a :: more => do
    match ← ask a with
    | some path => pure (some path)
    | none => firstAnswer? ask more

/-- The file that a path stands for. -/
def probe (d : Disk) (look : Lookups m) (path : Path) : m (Option Path) :=
  firstFile? look (candidates (d.isDirectory path) path)

/-- The file that the path mappings send a specifier to. -/
def byMappings (d : Disk) (look : Lookups m) (r : Resolver) (specifier : String) :
    m (Option Path) :=
  firstAnswer? (probe d look) (r.mappings.flatMap fun mapping =>
    ((mapping.capture? specifier).map mapping.destinations).getD [])

/-- The file below the base directory. -/
def byBaseUrl (d : Disk) (look : Lookups m) (r : Resolver) (specifier : String) :
    m (Option Path) :=
  match r.config?.bind ProjectConfig.baseUrl with
  | some base => probe d look (base / specifier)
  | none => pure none

/-- The file of a module of the package in `dir`. -/
def inPackage (d : Disk) (look : Lookups m) (dir : Path) (subpath : Option String) :
    m (Option Path) := do
  let package? ← look.package? (dir / Package.fileName)
  let exported := match package?.bind Package.exports with
    | some exports => exportCandidates dir exports subpath
    | none => []
  match ← firstFile? look exported with
  | some path => pure (some path)
  | none =>
    match subpath with
    | some below => probe d look (dir / below)
    | none =>
      let entries := package?.elim [] Package.entryFields
      firstAnswer? (probe d look) ((entries ++ ["index"]).map fun entry => dir / entry)

/-- Where a package is installed, seen from a directory: in the nearest one that has it. -/
def installedAt? (d : Disk) (start : Path) (name : String) : Option Path :=
  (start.ancestors.map fun dir => dir / "node_modules" / name).find? d.isDirectory

/-- The file of a bare specifier. -/
def byPackage (d : Disk) (look : Lookups m) (start : Path) (specifier : String) :
    m (Option Path) :=
  let (name, subpath) := splitSpecifier specifier
  match installedAt? d start name with
  | some dir => inPackage d look dir subpath
  | none => pure none

/-- The specifier is a path. -/
def isPath (specifier : String) : Bool :=
  Text.startsWith ['.'] specifier.toList || (Path.ofString specifier).isAbsolute

/-- The file that a specifier names in the file `importer`, as it was found. -/
def find (d : Disk) (look : Lookups m) (r : Resolver) (specifier : String) (importer : Path) :
    m (Option Path) := do
  let start := importer.parent?.getD importer
  match ← byMappings d look r specifier with
  | some path => pure (some path)
  | none =>
    if isPath specifier then probe d look (start / specifier)
    else
      match ← byPackage d look start specifier with
      | some path => pure (some path)
      | none => byBaseUrl d look r specifier

/-- The file that a specifier names in the file `importer`, with its links resolved. -/
def resolve (d : Disk) (look : Lookups m) (r : Resolver) (specifier : String) (importer : Path) :
    m (Option Path) := do
  return (← find d look r specifier importer).map fun path =>
    (d.canonical path).toOption.getD path

end

end Resolver

end ComponentRegistry
