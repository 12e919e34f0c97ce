import ComponentRegistry.Json.Printer

/-!
# Registry manifests

What a walk produces: the files of a component with their contents, and the packages and remote
registries it depends on.  While a walk goes on its findings are gathered in a draft.
-/

namespace ComponentRegistry

/-- What a file is for. -/
inductive RegistryType where
  | ui
  | hook
  | lib
  | style
  deriving DecidableEq, Repr

def RegistryType.tag : RegistryType → String
  | .ui => "registry:ui"
  | .hook => "registry:hook"
  | .lib => "registry:lib"
  | .style => "registry:style"

def RegistryType.ofTag? : String → Option RegistryType
  | "registry:ui" => some .ui
  | "registry:hook" => some .hook
  | "registry:lib" => some .lib
  | "registry:style" => some .style
  | _ => none

/-- A file whose content stands in the manifest. -/
structure RegistryFile where
  path : String
  content : String
  type : RegistryType
  deriving DecidableEq, Repr

structure Manifest where
  name : String
  type : Option RegistryType
  dependencies : List String
  devDependencies : List String
  registryDependencies : List String
  files : List RegistryFile
  deriving DecidableEq, Repr

namespace Manifest

def strings (items : List String) : Json := .array (items.map .string)

def fileJson (f : RegistryFile) : Json :=
  .object [("path", .string f.path), ("content", .string f.content), ("type", .string f.type.tag)]

/-- The manifest as a value; its members have a fixed order. -/
def toJson (m : Manifest) : Json :=
  .object [
    ("name", .string m.name),
    ("type", m.type.elim .null fun t => .string t.tag),
    ("dependencies", strings m.dependencies),
    ("devDependencies", strings m.devDependencies),
    ("registryDependencies", strings m.registryDependencies),
    ("files", .array (m.files.map fileJson))]

/-- The manifest as it is saved. -/
def pretty (m : Manifest) : String := m.toJson.pretty

end Manifest

/-- Values in the order of their first insertion, each once. -/
structure UniqueList where
  items : List String
  /-- The values inserted so far, latest first. -/
  seen : List String
  deriving DecidableEq, Repr

namespace UniqueList

def empty : UniqueList := ⟨[], []⟩

instance : Inhabited UniqueList := ⟨empty⟩

/-- The value was inserted before. -/
def contains (l : UniqueList) (v : String) : Bool := l.seen.contains v

/-- Whether the value is new, and the list with it. -/
def insert (l : UniqueList) (v : String) : Bool × UniqueList :=
  if l.contains v then (false, l) else (true, ⟨l.items ++ [v], v :: l.seen⟩)

def size (l : UniqueList) : Nat := l.items.length

def isEmpty (l : UniqueList) : Bool := l.items.isEmpty

theorem contains_insert (l : UniqueList) (v w : String) :
    (l.insert v).2.contains w = (l.contains w || w == v) := by
  unfold insert
  by_cases h : l.contains v = true
  · rw [if_pos h]
    by_cases hw : w = v
    · subst hw; simp [h]
    · simp [hw]
  · rw [if_neg h]
    by_cases hw : w = v
    · subst hw; simp [contains]
    · simp [contains, hw]

end UniqueList

/-- The findings of a walk that is going on. -/
structure Draft where
  name : String
  type : Option RegistryType
  dependencies : UniqueList
  devDependencies : UniqueList
  registryDependencies : UniqueList
  files : List RegistryFile
  deriving DecidableEq, Repr

namespace Draft

def start (name : String) : Draft := ⟨name, none, .empty, .empty, .empty, []⟩

/-- Set the type unless it is set. -/
def setTypeOnce (d : Draft) (t : RegistryType) : Draft := { d with type := d.type.or (some t) }

def addFile (d : Draft) (f : RegistryFile) : Draft := { d with files := d.files ++ [f] }

def addDependency (d : Draft) (name : String) : Draft :=
  { d with dependencies := (d.dependencies.insert name).2 }

def addRegistryDependency (d : Draft) (url : String) : Draft :=
  { d with registryDependencies := (d.registryDependencies.insert url).2 }

def finish (d : Draft) : Manifest :=
  { name := d.name
    type := d.type
    dependencies := d.dependencies.items
    devDependencies := d.devDependencies.items
    registryDependencies := d.registryDependencies.items
    files := d.files }

end Draft

end ComponentRegistry
