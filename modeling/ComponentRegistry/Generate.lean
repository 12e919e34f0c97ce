import ComponentRegistry.Disk.Edit
import ComponentRegistry.Path.Order
import ComponentRegistry.Report
import ComponentRegistry.Walk

/-!
# Generating registries

A run takes a component file, or the component files of a directory, walks each and saves its
manifest.  The components of a directory are worked on step by step, and a schedule says whose step
is next; each has its own walk and they share only the disk.
-/

namespace ComponentRegistry.Generate

/-- Extensions of component files. -/
def componentExtensions : List String := ["jsx", "tsx", "ts", "js"]

/-- Where the manifests of a directory go unless a place is configured. -/
def usualOutput : String := "registry"

structure Options where
  /-- A name for the manifest of a file; it does not count for directories. -/
  name : Option String
  input : Path
  /-- Manifests are handed back and not saved. -/
  rawJson : Bool
  /-- How many components may be worked on at a time; as many as there are processors if open. -/
  jobs : Option Nat
  deriving DecidableEq, Repr

def isComponent (file : Path) : Bool :=
  file.extensionText?.any componentExtensions.contains

/-- A name that is blank or begins with a digit is refused. -/
def isBadName (name : String) : Bool :=
  match Text.trim name.toList with
  | [] => true
  | c :: _ => c.isDigit

/-- Refuse options that no run can follow; `dir` is where relative inputs start. -/
def Options.validate (o : Options) (d : Disk) (dir : Path) : Except Failure Unit :=
  let input := dir.join o.input
  if o.name.any isBadName then
    .error (.invalidOption "Component name must not start with a number")
  else if !d.has input then
    .error (.invalidOption s!"Path must exist: {o.input.shown}")
  else if d.isFile input && !isComponent input then
    .error (.invalidOption
      "Path must be a directory or a file with extension .jsx, .tsx, .ts, or .js")
  else .ok ()

/-- Write a text to a file, whose directories are made where they are missing; the outcome and the
disk after it. -/
def writeOutput (d : Disk) (file : Path) (text : String) : Except Failure Unit × Disk :=
  let (ready, d) : Except IoFault Unit × Disk := match file.parent? with
    | some dir => if dir.isEmpty then (.ok (), d) else d.makeTree dir
    | none => (.ok (), d)
  match ready with
  | .error cause => (.error (.outputWrite file cause), d)
  | .ok () =>
    match d.writeFile file (.text text) with
    | .error cause => (.error (.outputWrite file cause), d)
    | .ok written => (.ok (), written)

/-- Save a manifest; where it is, and the disk after it. -/
def saveManifest (d : Disk) (m : Manifest) (dir : Path) (fileName : String) :
    Except Failure Path × Disk :=
  let file := dir / fileName
  let (done, after) := writeOutput d file m.pretty
  (done.map fun _ => file, after)

/-- What a run is about: its settings and its place. -/
structure Setting where
  config : Config
  /-- Where relative paths start. -/
  dir : Path
  outputDir : Path
  rawJson : Bool

/-- One component of a run. -/
structure Task where
  file : Path
  /-- The name of the manifest's file. -/
  outputName : String
  deriving DecidableEq, Repr

/-- The name of a manifest's file. -/
def outputNameOf (name : String) : String := Path.baseName name ++ ".json"

/-- What becomes of the manifest of a component: it is saved, or handed back as it is. -/
def keep (s : Setting) (t : Task) (m : Manifest) (d : Disk) : Except Failure Generated × Disk :=
  if s.rawJson then (.ok ⟨t.file, m, none⟩, d)
  else
    let (saved, after) := saveManifest d m s.outputDir t.outputName
    (saved.map fun path => ⟨t.file, m, some (path.relative s.dir)⟩, after)

/-- Walk a component and keep its manifest. -/
def generateOne (s : Setting) (t : Task) (d : Disk) : Except Failure Generated × Disk :=
  match Walk.generate d s.config t.file with
  | .error f => (.error f, d)
  | .ok m => keep s t m d

/-- How far the work on a component is. -/
inductive Stage where
  | waiting
  | walked (m : Manifest)
  | finished (result : Except Failure Generated)
  /-- It is counted as the component of this number that was done. -/
  | counted (result : Except Failure Generated) (number : Nat)
  | reported (result : Except Failure Generated)

/-- A run over several components. -/
structure Batch where
  disk : Disk
  work : List (Task × Stage)
  done : Nat
  updates : List Progress

/-- What is told about a component that is done. -/
def describe : Except Failure Generated → String × Bool
  | .ok g => (g.message, true)
  | .error f => (f.message, false)

/-- The next step of a component: walk, save, count, report. -/
def advance (s : Setting) (b : Batch) (t : Task) : Stage → Stage × Batch
  | .waiting =>
    match Walk.generate b.disk s.config t.file with
    | .error f => (.finished (.error f), b)
    | .ok m => (.walked m, b)
  | .walked m =>
    let (result, disk) := keep s t m b.disk
    (.finished result, { b with disk := disk })
  | .finished result => (.counted result (b.done + 1), { b with done := b.done + 1 })
  | .counted result number =>
    let (message, succeeded) := describe result
    let update : Progress := ⟨number, b.work.length, message, succeeded⟩
    (.reported result, { b with updates := b.updates ++ [update] })
  | .reported result => (.reported result, b)

/-- The batch after one step of its component at a place. -/
def Batch.step (s : Setting) (b : Batch) (place : Nat) : Batch :=
  match b.work[place]? with
  | none => b
  | some (task, stage) =>
    let (stage, after) := advance s b task stage
    { after with work := b.work.set place (task, stage) }

/-- The batch after the steps of a schedule. -/
def Batch.run (s : Setting) (b : Batch) (schedule : List Nat) : Batch :=
  schedule.foldl (Batch.step s) b

/-- One component after the other, each to its end. -/
def inOrder (count : Nat) : List Nat := (List.range count).flatMap fun place =>
  List.replicate 4 place

def Batch.start (d : Disk) (tasks : List Task) : Batch :=
  ⟨d, tasks.map fun t => (t, .waiting), 0, []⟩

def Stage.result? : Stage → Option (Except Failure Generated)
  | .reported result => some result
  | _ => none

/-- The report of a batch that is done; components stand in the order of the input. -/
def Batch.report (b : Batch) : Report where
  kind := .directory
  generated := b.work.filterMap fun (_, stage) => stage.result?.bind fun r => r.toOption
  failures := b.work.filterMap fun (task, stage) => match stage.result? with
    | some (.error f) => some ⟨task.file, f⟩
    | _ => none

/-- The component files of a directory, in the order of their paths; links do not count. -/
def listComponents (d : Disk) (dir : Path) : Except Failure (List Path) :=
  match d.locate dir with
  | .error cause => .error (.read dir cause)
  | .ok place =>
    let files := (d.entries place).filterMap fun (name, node) => match node with
      | .file _ => some (dir.child name)
      | _ => none
    .ok ((files.filter isComponent).mergeSort Path.precedes)

/-- What a run came to: its report or its failure, what was told, and the disk after it. -/
structure Outcome where
  result : Except Failure Report
  updates : List Progress
  disk : Disk

/-- The place for manifests: the configured one, or `usual`. -/
def outputDirectory (config : Config) (dir usual : Path) : Path :=
  (config.outputDir.map dir.join).getD usual

/-- A run over one file. -/
def runFile (d : Disk) (config : Config) (dir input : Path) (o : Options) : Outcome :=
  let s : Setting := {
    config := config
    dir := dir
    outputDir := outputDirectory config dir (input.parent?.getD dir)
    rawJson := o.rawJson }
  let task : Task := ⟨input, outputNameOf (o.name.getD input.fileNameShown)⟩
  match generateOne s task d with
  | (.error f, after) => ⟨.error f, [], after⟩
  | (.ok g, after) => ⟨.ok ⟨.file, [g], []⟩, [⟨1, 1, g.message, true⟩], after⟩

/-- A run over a directory whose steps are scheduled by `schedule`, given how many components there
are. -/
def runDirectory (schedule : Nat → List Nat) (d : Disk) (config : Config) (dir input : Path)
    (o : Options) : Outcome :=
  match listComponents d input with
  | .error f => ⟨.error f, [], d⟩
  | .ok files =>
    let s : Setting := {
      config := config
      dir := dir
      outputDir := outputDirectory config dir (input / usualOutput)
      rawJson := o.rawJson }
    let tasks := files.map fun file => ⟨file, outputNameOf file.fileNameShown⟩
    let b := (Batch.start d tasks).run s (schedule tasks.length)
    ⟨.ok b.report, b.updates, b.disk⟩

/-- A run in the directory `dir` under a schedule. -/
def runScheduled (schedule : Nat → List Nat) (d : Disk) (config : Config) (dir : Path)
    (o : Options) : Outcome :=
  match o.validate d dir with
  | .error f => ⟨.error f, [], d⟩
  | .ok () =>
    let input := dir.join o.input
    if d.isDirectory input then runDirectory schedule d config dir input o
    else runFile d config dir input o

/-- A run in the directory `dir`, one component after the other. -/
def run (d : Disk) (config : Config) (dir : Path) (o : Options) : Outcome :=
  runScheduled inOrder d config dir o

end ComponentRegistry.Generate
