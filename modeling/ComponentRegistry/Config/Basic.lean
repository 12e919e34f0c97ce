import ComponentRegistry.Failure
import ComponentRegistry.KeyMap
import ComponentRegistry.Text.Blank

/-!
# Configurations

The settings of the generator.  Each may be left open; layers of settings are laid over each other,
where a later layer wins, and the maps of remote registries are joined key by key.
-/

namespace ComponentRegistry

structure Config where
  name : Option String
  version : Option String
  /-- For the base name of a file, the remote registry that stands for it. -/
  registryDependencies : Option (KeyMap String)
  outputDir : Option Path
  /-- The directory under which files are recorded; it may be empty. -/
  basePathField : Option String
  deriving DecidableEq

namespace Config

/-- The name of configuration files. -/
def fileName : String := "regify.json"

/-- Nothing is set. -/
def unset : Config := ⟨none, none, none, none, none⟩

instance : Inhabited Config := ⟨unset⟩

/-- The settings that a new configuration file starts with. -/
def scaffold : Config where
  name := some "regify"
  version := some "0.1.0"
  registryDependencies := some .empty
  outputDir := some (Path.ofString "./registry")
  basePathField := some "src/components"

/-- `upper` over `lower`: its settings where it has them, and the joined map. -/
def overlay (lower upper : Config) : Config where
  name := upper.name.or lower.name
  version := upper.version.or lower.version
  registryDependencies :=
    match upper.registryDependencies with
    | none => lower.registryDependencies
    | some deps => some ((lower.registryDependencies.getD .empty).overlay deps)
  outputDir := upper.outputDir.or lower.outputDir
  basePathField := upper.basePathField.or lower.basePathField

/-- The remote registry for a base name. -/
def registryUrl? (c : Config) (baseName : String) : Option String :=
  c.registryDependencies.bind fun deps => deps.find? baseName

/-- The directory under which files are recorded; an empty one counts as not set. -/
def basePath? (c : Config) : Option String := c.basePathField.filter fun p => p ≠ ""

/-- What is wrong with an entry of the registry map. -/
def entryFault? (name url : String) : Option String :=
  if Text.isBlankText name then some "registryDependencies contains an empty module name"
  else if Text.isBlankText url then
    some s!"registryDependencies entry '{name}' has an empty URL"
  else none

/-- What is wrong with the settings; the first fault counts. -/
def fault? (c : Config) : Option String :=
  if c.outputDir.any Path.isEmpty then some "outputDir must not be empty"
  else if c.basePathField.any Text.isBlankText then some "basePath must not be empty"
  else (c.registryDependencies.elim [] KeyMap.entries).findSome? fun (name, url) =>
    entryFault? name url

/-- Refuse settings that are at fault. -/
def validate (c : Config) : Except Failure Config :=
  match c.fault? with
  | some reason => .error (.config reason)
  | none => .ok c

/-- The layers over each other, lowest first. -/
def ofLayers (layers : List Config) : Config := layers.foldl overlay unset

/-- The layers over each other, if they are valid together. -/
def build (layers : List Config) : Except Failure Config := (ofLayers layers).validate

end Config

end ComponentRegistry
