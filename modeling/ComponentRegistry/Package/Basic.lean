import ComponentRegistry.Disk.Basic
import ComponentRegistry.Failure
import ComponentRegistry.Json.Reader

/-!
# Package descriptions

The part of a `package.json` that resolution and workspaces read.  A field of the wrong kind is
passed over; only a text that is no JSON object is refused.
-/

namespace ComponentRegistry

structure Package where
  name : Option String
  version : Option String
  main : Option String
  module : Option String
  types : Option String
  typings : Option String
  exports : Option Json
  workspaces : Option Json
  dependencies : KeyMap String
  devDependencies : KeyMap String
  peerDependencies : KeyMap String

namespace Package

/-- The file's name. -/
def fileName : String := "package.json"

def stringField (v : Json) (field : String) : Option String := (v.member? field).bind Json.string?

/-- The entries of a field whose values are texts. -/
def dependencyField (v : Json) (field : String) : KeyMap String :=
  match (v.member? field).bind Json.members? with
  | some members => .ofList (members.filterMap fun (k, x) => x.string?.map fun s => (k, s))
  | none => .empty

/-- The description that an object gives. -/
def ofObject (v : Json) : Package where
  name := stringField v "name"
  version := stringField v "version"
  main := stringField v "main"
  module := stringField v "module"
  types := stringField v "types"
  typings := stringField v "typings"
  exports := v.member? "exports"
  workspaces := v.member? "workspaces"
  dependencies := dependencyField v "dependencies"
  devDependencies := dependencyField v "devDependencies"
  peerDependencies := dependencyField v "peerDependencies"

/-- Read a description; `file` is named in failures. -/
def parse (file : Path) (text : String) : Except Failure Package :=
  match Json.parse text with
  | .error fault => .error (.json file fault)
  | .ok (.object members) => .ok (ofObject (.object members))
  | .ok _ => .error (.invalidPackage file "Root value is not an object")

/-- Read the description in a file. -/
def load (d : Disk) (file : Path) : Except Failure Package :=
  match d.readText file with
  | .error cause => .error (.ofRead file cause)
  | .ok text => parse file text

/-- The patterns of workspace directories, listed directly or under `packages`. -/
def workspacePatterns (p : Package) : List String :=
  let items := match p.workspaces with
    | some (.array items) => items
    | some v => ((v.member? "packages").bind Json.items?).getD []
    | none => []
  items.filterMap Json.string?

/-- Dependencies that are linked inside the workspace. -/
def linkedDependencies (p : Package) : List String :=
  (p.dependencies.entries.filter fun e => Text.containsWord "workspace".toList e.2.toList).map (·.1)

/-- Files that the package may begin with, in the order they are tried. -/
def entryFields (p : Package) : List String := [p.types, p.typings, p.module, p.main].filterMap id

end Package

end ComponentRegistry
