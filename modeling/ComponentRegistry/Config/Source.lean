import ComponentRegistry.Config.Format
import ComponentRegistry.Disk.Edit

/-!
# Where settings come from

A configuration file, the environment and the command line.  A file that is named has to be there;
otherwise the first one found in the usual places counts.  The environment is laid over the file
and the command line over both.
-/

namespace ComponentRegistry

/-- Variables and their values. -/
abbrev Environment := List (String × String)

namespace Environment

/-- The directory for the user's configurations. -/
def configHome? (env : Environment) : Option Path :=
  match (entryValue? "XDG_CONFIG_HOME" env).map Path.ofString with
  | some dir => if dir.isAbsolute then some dir else home?
  | none => home?
where
  home? : Option Path :=
    ((entryValue? "HOME" env).filter fun h => h ≠ "").map fun h => Path.ofString h / ".config"

/-- A variable that is set to some text; its name begins with `start`. -/
def setting? (env : Environment) (start suffix : String) : Option String :=
  (entryValue? (start ++ "_" ++ suffix) env).filter fun v => v ≠ ""

end Environment

namespace Config

/-- Read the configuration file at a path. -/
def loadFile (d : Disk) (path : Path) : Except Failure Config :=
  if !d.has path then .error (.configNotFound path)
  else match d.readText path with
    | .error cause => .error (.configRead path cause)
    | .ok text => parse path text

/-- The places of configuration files: a directory, then the user's configurations. -/
def locations (env : Environment) (dir : Path) : List Path :=
  (dir / fileName) :: (env.configHome?.map fun home => home / "regify" / fileName).toList

/-- The configuration in the first place that holds a file. -/
def findFirst (d : Disk) (places : List Path) : Except Failure (Option Config) :=
  match places.find? d.isFile with
  | none => .ok none
  | some path => (loadFile d path).map some

/-- Write the scaffold unless something stands at the path; whether it was written, and the disk
after it. -/
def create (d : Disk) (path : Path) : Except Failure Bool × Disk :=
  if d.has path then (.ok false, d)
  else
    let (ready, d) : Except IoFault Unit × Disk := match path.parent? with
      | some dir => if dir.isEmpty || d.has dir then (.ok (), d) else d.makeTree dir
      | none => (.ok (), d)
    match ready with
    | .error cause => (.error (.io cause), d)
    | .ok () =>
      match d.writeFile path (.text scaffold.pretty) with
      | .error cause => (.error (.outputWrite path cause), d)
      | .ok written => (.ok true, written)

/-- What the command line says about settings. -/
structure Flags where
  output : Option Path
  basePath : Option String
  /-- The configuration file to use. -/
  config : Option Path
  deriving DecidableEq, Repr

def Flags.none : Flags := ⟨Option.none, Option.none, Option.none⟩

/-- One origin of settings. -/
structure Source where
  name : String
  /-- Sources with a higher one win. -/
  priority : Nat
  isAvailable : Bool
  config : Except Failure Config

namespace Source

def ofFileNamed (d : Disk) (name : String) (path : Path) : Source where
  name := name
  priority := 20
  isAvailable := d.isFile path
  config := if d.isFile path then loadFile d path else .error (.configNotFound path)

/-- A configuration file. -/
def ofFile (d : Disk) (path : Path) : Source :=
  ofFileNamed d s!"config file ({path.shown})" path

/-- Where the usual configuration file stands, seen from the working directory. -/
def usualPath : Path := Path.ofString fileName

/-- The configuration file of the working directory. -/
def usualFile (d : Disk) : Source := ofFileNamed d "default config file" usualPath

/-- The variables whose names begin with `start`. -/
def ofEnvironment (start : String) (env : Environment) : Source where
  name := s!"{start} environment variables"
  priority := 10
  isAvailable :=
    (env.setting? start "OUTPUT_DIR").isSome || (env.setting? start "BASE_PATH").isSome
  config := .ok { unset with
    outputDir := (env.setting? start "OUTPUT_DIR").map Path.ofString
    basePathField := env.setting? start "BASE_PATH" }

/-- The flags of the command line. -/
def ofFlags (flags : Flags) : Source where
  name := "command-line arguments"
  priority := 30
  isAvailable := true
  config := .ok { unset with outputDir := flags.output, basePathField := flags.basePath }

/-- Lay the settings of a source over a configuration, if there are any. -/
def overlay (lower : Config) (s : Source) : Except Failure Config :=
  if s.isAvailable then s.config.map lower.overlay else .ok lower

end Source

/-- How the variables of the environment begin. -/
def environmentStart : String := "REGIFY"

/-- The settings of the file layer: the file that is named, or the first in the usual places. -/
def fileLayer (d : Disk) (env : Environment) (dir : Path) : Option Path → Except Failure Config
  | some path => (Source.ofFile d (dir.join path)).config
  | none => (findFirst d (locations env dir)).map fun c => c.getD unset

/-- The settings for a command that runs in `dir`. -/
def load (d : Disk) (env : Environment) (dir : Path) (flags : Flags) : Except Failure Config := do
  let file ← fileLayer d env dir flags.config
  let withEnvironment ← Source.overlay (unset.overlay file) (.ofEnvironment environmentStart env)
  let all ← Source.overlay withEnvironment (.ofFlags flags)
  all.validate

end Config

end ComponentRegistry
