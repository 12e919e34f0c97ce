import ComponentRegistry.Disk.Ancestor
import ComponentRegistry.Json.Comments
import ComponentRegistry.Json.Reader

/-!
# Project configurations

The part of a `tsconfig.json` or `jsconfig.json` that resolution reads: the base directory and the
path mappings.  A configuration may extend another one, whose settings it then replaces one by one.
-/

namespace ComponentRegistry

/-- A rule that sends specifiers of some form to files. -/
structure PathMapping where
  /-- The text before the star, or the whole specifier if there is no star. -/
  before : String
  /-- The text after the star. -/
  after? : Option String
  targets : List String
  /-- The directory that targets start from. -/
  base : Path
  deriving DecidableEq, Repr

namespace PathMapping

/-- The text that stands for the star, if the specifier has the mapping's form. -/
def capture? (m : PathMapping) (specifier : String) : Option (List Char) :=
  match m.after? with
  | none => if specifier = m.before then some [] else none
  | some after =>
    (Text.stripStart? m.before.toList specifier.toList).bind (Text.stripEnd? after.toList)

/-- A target with the captured text in place of its star. -/
def fill (target : String) (captured : List Char) : String :=
  String.ofList (Text.replaceFirst '*' captured target.toList)

/-- The paths that a specifier of the mapping's form is sent to, in order. -/
def destinations (m : PathMapping) (captured : List Char) : List Path :=
  m.targets.map fun target => m.base / fill target captured

/-- The form of a key: the texts around its first star. -/
def form (key : String) : String × Option String :=
  match Text.splitOnce? '*' key.toList with
  | some (before, after) => (String.ofList before, some (String.ofList after))
  | none => (key, none)

/-- The mapping that a member of `paths` describes; its value has to be a list. -/
def ofMember? (base : Path) (member : String × Json) : Option PathMapping :=
  member.2.items?.map fun targets =>
    let (before, after?) := form member.1
    ⟨before, after?, targets.filterMap Json.string?, base⟩

/-- Bytes before the star; mappings with more of them come first. -/
def weight (m : PathMapping) : Nat := Text.byteLength m.before.toList

end PathMapping

structure ProjectConfig where
  baseUrl : Option Path
  /-- Longest text before the star first, then by key. -/
  mappings : List PathMapping
  deriving DecidableEq, Repr

namespace ProjectConfig

/-- The names that configurations have, in the order they are tried. -/
def fileNames : List String := ["tsconfig.json", "jsconfig.json"]

/-- How many configurations may extend each other in a row. -/
def extendsLimit : Nat := 8

/-- Settings gathered along a chain of configurations. -/
structure Settings where
  baseUrl : Option Path
  /-- The members of `paths` and the directory of the configuration that has them. -/
  paths : Option (List (String × Json) × Path)

def Settings.absent : Settings := ⟨none, none⟩

/-- The settings of a configuration in `dir` over those that it extends. -/
def Settings.overlay (inherited : Settings) (dir : Path) (v : Json) : Settings :=
  match v.member? "compilerOptions" with
  | none => inherited
  | some options =>
    { baseUrl := match (options.member? "baseUrl").bind Json.string? with
        | some url => some (dir / url)
        | none => inherited.baseUrl
      paths := match (options.member? "paths").bind Json.members? with
        | some members => some (members, dir)
        | none => inherited.paths }

/-- The file that a configuration in `dir` extends, if it is named relative to it. -/
def parentFile? (d : Disk) (dir : Path) (v : Json) : Option Path :=
  match (v.member? "extends").bind Json.string? with
  | none => none
  | some parent =>
    if !Text.startsWith ['.'] parent.toList then none
    else
      let named := dir / parent
      some (if d.isFile named then named
        else ⟨named.glyphs ++ Text.ofChars ".json".toList⟩)

/-- The settings of a configuration; `chain` more may be extended.  One that is extended but cannot
be read has no settings. -/
def settings? (d : Disk) (chain : Nat) (file : Path) : Option Settings := do
  let text ← (d.readText file).toOption
  let v ← (Json.parse (Json.stripExtras text)).toOption
  let dir ← file.parent?
  let inherited := match chain, parentFile? d dir v with
    | chain + 1, some parent => (settings? d chain parent).getD .absent
    | _, _ => .absent
  return inherited.overlay dir v

/-- The mappings that settings describe. -/
def Settings.mappings (s : Settings) : List PathMapping :=
  match s.paths with
  | none => []
  | some (members, dir) =>
    (members.filterMap (PathMapping.ofMember? (s.baseUrl.getD dir))).mergeSort
      fun a b => b.weight ≤ a.weight

/-- The configuration in a file; none if it cannot be read. -/
def load (d : Disk) (file : Path) : Option ProjectConfig :=
  (settings? d extendsLimit file).map fun s => ⟨s.baseUrl, s.mappings⟩

/-- The configuration nearest to a directory. -/
def discover (d : Disk) (start : Path) : Option ProjectConfig :=
  (d.fileUpward? start fileNames).bind (load d)

end ProjectConfig

end ComponentRegistry
