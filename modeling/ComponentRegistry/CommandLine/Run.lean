import ComponentRegistry.CommandLine.Console
import ComponentRegistry.CommandLine.Reader

/-!
# Running commands

What a command does and shows, and the exit code that its outcome has.
-/

namespace ComponentRegistry.CommandLine

/-- What a command came to. -/
structure Execution where
  result : Except Failure Unit
  lines : List Line
  disk : Disk

/-- Write a configuration file in `dir` unless there is one. -/
def runInit (d : Disk) (dir : Path) (c : Console) : Execution :=
  let path := dir / Config.fileName
  match Config.create d path with
  | (.error f, after) => ⟨.error f, [], after⟩
  | (.ok true, after) => ⟨.ok (), c.success s!"Created {Config.fileName}", after⟩
  | (.ok false, after) =>
    let message := s!"{Config.fileName} already exists at {path.shown}. " ++
      "Delete it first to recreate it."
    ⟨.ok (), c.warn message, after⟩

/-- The text without the blanks at its end. -/
def trimEnd (s : String) : String :=
  String.ofList ((s.toList.reverse.dropWhile Text.isBlank).reverse)

/-- The lines that tell the outcome of a run. -/
def reportLines (r : Report) (c : Console) : List Line :=
  let summary := trimEnd (r.summary c.useColours)
  if r.isSuccess && r.kind = .file then c.success summary
  else c.success "Done" ++ c.print summary

/-- Generate manifests in `dir` under a schedule. -/
def runGenerate (schedule : Nat → List Nat) (d : Disk) (env : Environment) (dir : Path)
    (g : GenerateArguments) (flags : Config.Flags) (c : Console) : Execution :=
  match Config.load d env dir flags with
  | .error f => ⟨.error (f.inContext "Failed to load configuration"), [], d⟩
  | .ok config =>
    let options : Generate.Options := ⟨g.name, g.input, g.rawJson, g.jobs⟩
    -- the standard output is kept for the manifests if they are shown there
    let c := { c with quiet := c.quiet || g.rawJson }
    let run := Generate.runScheduled schedule d config dir options
    let told := run.updates.flatMap c.progress
    match run.result with
    | .error f => ⟨.error f, told ++ c.error "Registry generation failed", run.disk⟩
    | .ok report =>
      let last := if g.rawJson then [⟨.standard, report.json⟩] else reportLines report c
      ⟨report.check, told ++ last, run.disk⟩

/-- Carry out a command in `dir`. -/
def execute (schedule : Nat → List Nat) (d : Disk) (env : Environment) (dir : Path)
    (a : Arguments) : Execution :=
  match a.command with
  | .init => runInit d dir a.console
  | .generate g => runGenerate schedule d env dir g a.flags a.console

/-- What a user may do about a failure. -/
def suggestion? : Failure → Option String
  | .unresolvedImport _ _ =>
    some "Check the import for typos, or add a matching \"paths\" entry to tsconfig.json"
  | .circularDependency _ => some "Break the cycle by moving shared code into a separate module"
  | .configNotFound _ => some "Run `regify init` or pass an existing file with --config"
  | .permissionDenied _ => some "Check file permissions"
  | _ => none

def exitCodeOf : Severity → Nat
  | .warning => 0
  | .error => 1
  | .critical => 2

/-- Failures that the summary has shown. -/
def isShown : Failure → Bool
  | .batchFailed _ _ => true
  | _ => false

/-- The lines that tell a failure. -/
def failureLines (f : Failure) : List Line :=
  let told := if isShown f then [] else [s!"\nError: {f.userMessage}"]
  let advice := (suggestion? f.rootCause).toList.map fun s => s!"Suggestion: {s}"
  let code := exitCodeOf f.severity
  let closing :=
    if code = 0 then [] else [s!"\nExiting with code {code} due to {f.severity.text}"]
  (told ++ advice ++ closing).map (Line.mk .error)

/-- What the program leaves behind. -/
structure Ending where
  code : Nat
  output : String
  errors : String
  disk : Disk

/-- The ending of a command that was carried out. -/
def Execution.ending (e : Execution) : Ending :=
  let (code, lines) := match e.result with
    | .ok () => (0, e.lines)
    | .error f => (exitCodeOf f.severity, e.lines ++ failureLines f)
  ⟨code, textOn .standard lines, textOn .error lines, e.disk⟩

/-- Run the program in the working directory of a disk; a refusal if the arguments are none. -/
def runProgram (d : Disk) (env : Environment) (args : List String) : Except Refusal Ending := do
  let a ← read args
  return (execute Generate.inOrder d env d.workingDirectory a).ending

end ComponentRegistry.CommandLine
