import ComponentRegistry.Classification
import ComponentRegistry.Config.Basic
import ComponentRegistry.Package.Workspace
import ComponentRegistry.Resolver.Cache

/-!
# Walking the imports of a component

From an entry file to its manifest.  The walk is depth first and takes the files in the order of
their first visit: a file is recorded, then its import statements are taken one after the other.
An import of a project file is followed, unless a remote registry stands for the file; any other is
noted as a dependency.  A file that imports itself over any number of files ends the walk.
-/

namespace ComponentRegistry.Walk

/-- What stays the same during a walk. -/
structure Project where
  disk : Disk
  config : Config
  root : Path
  workspace : Workspace
  resolver : Resolver

/-- Where an import ends up. -/
inductive Outcome where
  /-- The file is recorded and its imports are followed. -/
  | inlined (file : Path)
  /-- A remote registry stands for the file. -/
  | registry (url : String)
  /-- The specifier is noted as a dependency. -/
  | external
  /-- Another package of the workspace; nothing is noted. -/
  | workspace
  deriving DecidableEq, Repr

structure State where
  /-- Files that were entered. -/
  visited : List Path
  /-- The files between the entry and the one at hand, outermost first. -/
  active : List Path
  /-- Files whose imports have all been followed. -/
  processed : List Path
  cache : Cache
  draft : Draft

namespace State

def start (name : String) : State := ⟨[], [], [], .empty, .start name⟩

def enter (s : State) (file : Path) : State :=
  { s with visited := file :: s.visited, active := s.active ++ [file] }

def leave (s : State) (file : Path) : State :=
  { s with active := s.active.dropLast, processed := file :: s.processed }

end State

/-- The path of a file as it is recorded: under the configured directory, or as seen from the
root. -/
def recordPath (p : Project) (file : Path) : String :=
  match p.config.basePath? with
  | some dir => Path.joinForward dir file.fileNameShown
  | none => (file.relative p.root).forwardSlashes

/-- The files of a cycle as seen from the root, with arrows between them. -/
def cycleChain (p : Project) (active : List Path) (file : Path) : String :=
  " -> ".intercalate ((active ++ [file]).map fun f => (f.relative p.root).forwardSlashes)

/-- What becomes of an import whose specifier was resolved, or was not. -/
def outcome (p : Project) (specifier : String) (importer : Path) :
    Option Path → Except Failure Outcome
  | none =>
    if p.resolver.isLocal specifier then
      .error (.unresolvedImport specifier (importer.relative p.root))
    else .ok .external
  | some file =>
    if file.isInstalled then .ok .external
    else if file.startsWith p.root then
      match p.config.registryUrl? (Path.baseName file.fileNameShown) with
      | some url => .ok (.registry url)
      | none => .ok (.inlined file)
    else if p.workspace.isMonorepo && p.workspace.contains specifier then .ok .workspace
    else .ok .external

/-- What becomes of an import, and the cache after its resolution. -/
def resolveImport (p : Project) (specifier : String) (importer : Path) (c : Cache) :
    Except Failure Outcome × Cache :=
  let (file?, c) := (Resolver.resolve p.disk (Cache.lookups p.disk) p.resolver specifier importer) c
  (outcome p specifier importer file?, c)

/-- What is recorded of a file. -/
structure Loaded where
  summary : SourceSummary
  type : RegistryType
  deriving DecidableEq, Repr

/-- Read, parse and classify a file. -/
def loadFile (p : Project) (file : Path) : Except Failure Loaded := do
  let summary ← SourceSummary.ofFile p.disk file
  return ⟨summary, ← Classification.classify file p.root (some summary)⟩

/-- Record a file in a draft. -/
def record (p : Project) (file : Path) (l : Loaded) (d : Draft) : Draft :=
  (d.setTypeOnce l.type).addFile ⟨recordPath p file, l.summary.text, l.type⟩

/-- Take the import statements of a file in order; `follow` continues in an inlined file. -/
def takeImports (p : Project) (follow : Path → State → Except Failure State) (importer : Path) :
    List Script.Reference → State → Except Failure State
  | [], s => .ok s
  | reference :: more, s =>
    match resolveImport p reference.specifier importer s.cache with
    | (.error f, _) => .error f
    | (.ok found, cache) =>
      let s := { s with cache := cache }
      let next : Except Failure State := match found with
        | .inlined file => follow file s
        | .registry url => .ok { s with draft := s.draft.addRegistryDependency url }
        | .external => .ok { s with draft := s.draft.addDependency reference.specifier }
        | .workspace => .ok s
      match next with
      | .error f => .error f
      | .ok s => takeImports p follow importer more s

/-- Walk from a file on.  Each level enters a file that was not entered before, so as many levels as
there are files are enough; deeper down some file would repeat. -/
def process (p : Project) : Nat → Path → State → Except Failure State
  | 0, file, s => .error (.circularDependency (cycleChain p s.active file))
  | levels + 1, file, s =>
    if file.isAmong s.processed then .ok s
    else if file.isAmong s.active then
      .error (.circularDependency (cycleChain p s.active file))
    else if file.isAmong s.visited then .ok s
    else
      let s := s.enter file
      match loadFile p file with
      | .error f => .error f
      | .ok loaded =>
        let s := { s with draft := record p file loaded s.draft }
        match takeImports p (process p levels) file loaded.summary.imports s with
        | .error f => .error f
        | .ok s => .ok (s.leave file)

/-- More than the levels that a walk on the disk can have. -/
def levels (d : Disk) : Nat := d.nodes.length + 2

/-- A walk that is ready to begin. -/
structure Start where
  project : Project
  entry : Path
  name : String

/-- Prepare the walk from an entry: find the root of its project and what is configured there. -/
def prepare (d : Disk) (config : Config) (entry : Path) : Except Failure Start :=
  match d.canonical entry with
  | .error cause => .error (.ofRead entry cause)
  | .ok file => do
    let dir := file.parent?.getD file
    let root ← projectRoot d dir
    return {
      project := {
        disk := d
        config := config
        root := root
        workspace := Workspace.load d root
        resolver := Resolver.around d dir }
      entry := file
      name := (entry.stem?.map Text.shown).getD "" }

/-- Walk to the end. -/
def Start.run (w : Start) : Except Failure Manifest :=
  (process w.project (levels w.project.disk) w.entry (.start w.name)).map fun s => s.draft.finish

/-- The manifest of an entry file.  A failure inside the walk is tagged with the entry. -/
def generate (d : Disk) (config : Config) (entry : Path) : Except Failure Manifest :=
  if !d.has entry then .error (.entryNotFound entry)
  else match prepare d config entry >>= Start.run with
    | .error f => .error (.generation entry f)
    | .ok m => .ok m

end ComponentRegistry.Walk
