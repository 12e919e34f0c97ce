import ComponentRegistry.Disk.Ancestor
import ComponentRegistry.Package.Basic
import ComponentRegistry.Package.Glob

/-!
# Project roots and workspaces

The root of a project is the nearest directory with a package description.  What the description
says about workspaces decides which packages belong to the project itself: those linked as
dependencies and those that stand in the directories of the workspace patterns.
-/

namespace ComponentRegistry

/-- The root of the project around `start`: the nearest directory with a package description, or
the working directory; links are resolved. -/
def projectRoot (d : Disk) (start : Path) : Except Failure Path :=
  let root := (d.ancestorWith? start Package.fileName).getD d.workingDirectory
  match d.canonical root with
  | .error cause => .error (.ofRead root cause)
  | .ok path => .ok path

/-- The names in order, each once. -/
def sortedNames (names : List String) : List String :=
  (KeyMap.ofList (names.map fun name => (name, ()))).keys

structure Workspace where
  isMonorepo : Bool
  /-- The patterns of the directories of packages. -/
  patterns : List String
  /-- Declared dependencies that are not linked, in order. -/
  dependencies : List String
  /-- The packages of the workspace, in order. -/
  packages : List String
  deriving DecidableEq, Repr

namespace Workspace

def absent : Workspace := ⟨false, [], [], []⟩

/-- Files that mark a monorepo. -/
def markers : List String := ["pnpm-workspace.yaml", "lerna.json"]

/-- The names of the packages that a pattern leads to; a pattern that begins with `!` leads to
none. -/
def packagesAt (d : Disk) (root : Path) (pattern : String) : List String :=
  if Text.startsWith ['!'] pattern.toList then []
  else
    (Glob.paths d (root / pattern / Package.fileName).shown).filterMap fun file =>
      (Package.load d file).toOption.bind Package.name

/-- The workspace that a package description declares. -/
def ofPackage (d : Disk) (root : Path) (p : Package) : Workspace :=
  let linked := p.linkedDependencies
  let declared := p.dependencies.keys ++ p.devDependencies.keys ++ p.peerDependencies.keys
  { isMonorepo :=
      !linked.isEmpty || p.workspaces.isSome || markers.any fun name => d.isFile (root / name)
    patterns := p.workspacePatterns
    dependencies := sortedNames (declared.filter fun name => !linked.contains name)
    packages := sortedNames (linked ++ p.workspacePatterns.flatMap (packagesAt d root)) }

/-- The workspace of the project at `root`; a description that cannot be read declares none. -/
def load (d : Disk) (root : Path) : Workspace :=
  match Package.load d (root / Package.fileName) with
  | .error _ => absent
  | .ok p => ofPackage d root p

/-- A specifier names a package of the workspace or a module below one. -/
def contains (w : Workspace) (specifier : String) : Bool :=
  w.packages.any fun name =>
    match Text.stripStart? name.toList specifier.toList with
    | some rest => rest.isEmpty || Text.startsWith ['/'] rest
    | none => false

end Workspace

end ComponentRegistry
