import ComponentRegistry.Resolver.Basic

/-!
# Remembered look-ups

A cache keeps the answers about files, and the package descriptions that were read last.  Answers
are kept by the components of a path, so two spellings with the same components share one.
-/

namespace ComponentRegistry

/-- What a path is remembered by. -/
abbrev CacheKey := List Path.Component

structure Cache where
  files : List (CacheKey × Bool)
  /-- The description used last comes first. -/
  packages : List (CacheKey × Option Package)

namespace Cache

def empty : Cache := ⟨[], []⟩

instance : Inhabited Cache := ⟨empty⟩

/-- How many package descriptions are kept. -/
def packageLimit : Nat := 128

def file? (c : Cache) (key : CacheKey) : Option Bool :=
  (c.files.find? fun e => e.1 = key).map (·.2)

def putFile (c : Cache) (key : CacheKey) (answer : Bool) : Cache :=
  { c with files := (key, answer) :: c.files }

def package? (c : Cache) (key : CacheKey) : Option (Option Package) :=
  (c.packages.find? fun e => e.1 = key).map (·.2)

/-- Note a description as used last; the one unused for longest goes if there are too many. -/
def putPackage (c : Cache) (key : CacheKey) (package : Option Package) : Cache :=
  { c with packages :=
      ((key, package) :: c.packages.filter fun e => e.1 ≠ key).take packageLimit }

/-- The remembered answer, or the disk's, which is remembered. -/
def isFile (d : Disk) (path : Path) : StateM Cache Bool := fun c =>
  match c.file? path.components with
  | some answer => (answer, c)
  | none => let answer := d.isFile path; (answer, c.putFile path.components answer)

/-- The remembered description, or the one in the file, which is remembered. -/
def readPackage (d : Disk) (file : Path) : StateM Cache (Option Package) := do
  match (← get).package? file.components with
  | some package =>
    modify fun c => c.putPackage file.components package
    return package
  | none =>
    let package := if ← isFile d file then Lookups.readPackage? d file else none
    modify fun c => c.putPackage file.components package
    return package

/-- Look-ups that remember. -/
def lookups (d : Disk) : Lookups (StateM Cache) where
  isFile := isFile d
  package? := readPackage d

end Cache

end ComponentRegistry
