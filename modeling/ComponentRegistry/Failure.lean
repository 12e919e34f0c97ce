import ComponentRegistry.IoFault
import ComponentRegistry.Json.Fault
import ComponentRegistry.Path.Relative

/-!
# Failures

Every way in which generating a registry can fail, with its message, the message shown to a user,
and how grave it is.  A failure inside a walk is tagged with the entry that the walk began at.
-/

namespace ComponentRegistry

inductive Severity where
  /-- The work can go on. -/
  | warning
  /-- This piece of work fails. -/
  | error
  /-- The whole run ends. -/
  | critical
  deriving DecidableEq, Repr

def Severity.text : Severity → String
  | .warning => "WARNING"
  | .error => "ERROR"
  | .critical => "CRITICAL"

inductive Failure where
  | entryNotFound (path : Path)
  | circularDependency (chain : String)
  | unresolvedImport (specifier : String) (importer : Path)
  | classification (path : Path) (reason : String)
  | read (path : Path) (cause : IoFault)
  | parse (path : Path) (reason : String)
  /-- A failure inside the walk from `entry`. -/
  | generation (entry : Path) (source : Failure)
  | io (cause : IoFault)
  | permissionDenied (path : Path)
  | json (file : Path) (fault : Json.Fault)
  | invalidPackage (path : Path) (reason : String)
  | config (reason : String)
  | configNotFound (path : Path)
  | configRead (path : Path) (cause : IoFault)
  | configParse (path : Path) (fault : Json.Fault)
  | invalidOption (reason : String)
  | outputWrite (path : Path) (cause : IoFault)
  | stdoutWrite (cause : IoFault)
  | serialize (fault : Json.Fault)
  | parallel (reason : String)
  | batchFailed (failed total : Nat)
  deriving DecidableEq, Repr

namespace Failure

def message : Failure → String
  | .entryNotFound path => s!"Entry file not found: {path.shown}"
  | .circularDependency chain => s!"Circular dependency detected: {chain}"
  | .unresolvedImport specifier importer =>
    s!"Could not resolve local import: \"{specifier}\" in {importer.shown}. " ++
      "Ensure your tsconfig.json/jsconfig.json paths are correct."
  | .classification path reason => s!"Failed to detect registry type for {path.shown}: {reason}"
  | .read path cause => s!"Error reading {path.shown}: {cause.text}"
  | .parse path reason => s!"Failed to parse {path.shown}: {reason}"
  | .generation entry source =>
    s!"Failed to generate registry for {entry.shown}: {source.message}"
  | .io cause => s!"IO error: {cause.text}"
  | .permissionDenied path => s!"Permission denied accessing {path.shown}"
  | .json file fault => s!"JSON parsing error in {file.shown}: {fault.message}"
  | .invalidPackage path reason => s!"Invalid package.json structure in {path.shown}: {reason}"
  | .config reason => s!"Configuration error: {reason}"
  | .configNotFound path => s!"Configuration file not found at {path.shown}"
  | .configRead path cause => s!"Error reading configuration file {path.shown}: {cause.text}"
  | .configParse path fault => s!"Error parsing configuration file {path.shown}: {fault.message}"
  | .invalidOption reason => s!"Invalid options provided: {reason}"
  | .outputWrite path cause => s!"Error writing to output file {path.shown}: {cause.text}"
  | .stdoutWrite cause => s!"Error writing to stdout: {cause.text}"
  | .serialize fault => s!"JSON serialization error: {fault.message}"
  | .parallel reason => s!"Parallel execution error: {reason}"
  | .batchFailed failed total => s!"{failed} of {total} registries failed to generate"

/-- The message for a user, which for some failures also says what to do. -/
def userMessage : Failure → String
  | .permissionDenied path =>
    s!"Cannot access '{path.shown}' due to permission denied. Check file permissions."
  | .json file fault =>
    s!"Invalid JSON in '{file.shown}': {fault.message}. Please check the file format."
  | .io cause => s!"File system error: {cause.text}. Check disk space and permissions."
  | .configNotFound path =>
    s!"Configuration file not found at '{path.shown}'. Run `regify init` or pass --config."
  | .configParse path fault => s!"Invalid regify config '{path.shown}': {fault.message}"
  | f => f.message

def severity : Failure → Severity
  | .permissionDenied _ => .warning
  | .invalidPackage _ _ => .warning
  | .config _ => .critical
  | .configNotFound _ => .critical
  | .configRead _ _ => .critical
  | .configParse _ _ => .critical
  | .stdoutWrite _ => .critical
  | .parallel _ => .critical
  | .generation _ source => if source.severity = .critical then .critical else .error
  | _ => .error

def isCritical (f : Failure) : Bool := f.severity == .critical

/-- The failure inside all tags. -/
def rootCause : Failure → Failure
  | .generation _ source => source.rootCause
  | f => f

/-- A failure to read the file at `path`. -/
def ofRead (path : Path) (cause : IoFault) : Failure :=
  if cause.isDenied then .permissionDenied path else .read path cause

/-- The failure seen from a task; a critical one stays as it is. -/
def inContext (task : String) (f : Failure) : Failure :=
  if f.isCritical then f else .config s!"{task}: {f.message}"

/-- The fault of the file system seen from a task. -/
def ofTask (task : String) (cause : IoFault) : Failure := .config s!"{task}: {cause.text}"

/-- The failure seen from a file: a fault of the file system is one of reading it. -/
def inFile (path : Path) : Failure → Failure
  | .io cause => .read path cause
  | f => f

end Failure

end ComponentRegistry
