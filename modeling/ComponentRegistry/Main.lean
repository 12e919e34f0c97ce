import ComponentRegistry.CommandLine.Run

/-!
# The program

Takes a picture of the files around the working directory, runs the command on it, writes what has
changed and shows what the command says.
-/

namespace ComponentRegistry.Main

/-- Directories that hold no sources. -/
def passedOver : List String := [".git", ".svn", ".hg"]

/-- The fault that reading a file ended with. -/
def faultOf : IO.Error → IoFault
  | .permissionDenied _ code _ => .system code.toNat
  | e => .other false (toString e)

/-- The nodes at and below a place of the file system. -/
partial def picture (place : Location) (name : String) : IO (List (Location × Node)) := do
  let file := (Disk.pathOf place).shown
  let real ← IO.FS.realPath file
  let parent ← IO.FS.realPath (Disk.pathOf place.dropLast).shown
  if !place.isEmpty && real.toString ≠ (parent / name).toString then
    return [(place, .link (Path.ofString real.toString))]
  else if ← real.isDir then
    let mut nodes := [(place, Node.directory)]
    for entry in ← real.readDir do
      if !passedOver.contains entry.fileName then
        try
          let inner ← picture (place ++ [Text.ofChars entry.fileName.toList]) entry.fileName
          nodes := nodes ++ inner
        catch _ => pure ()
    return nodes
  else
    try
      let bytes ← IO.FS.readBinFile real
      return [(place, .file (.ofBytes bytes.toList))]
    catch fault => return [(place, .file (.unreadable (faultOf fault)))]

/-- The names of a path from the root down. -/
def placeOf (p : Path) : Location := p.components.filterMap fun c => match c with
  | .normal name => some name
  | _ => none

/-- The directories above a place, which need no more than their names. -/
def above (place : Location) : List (Location × Node) :=
  (List.range place.length).tail.map fun n => (place.take n, .directory)

/-- The first of the paths that has a package description, or `dir`. -/
def projectAround (dir : Path) : List Path → IO Path
  | [] => return dir
  | p :: more => do
    try
      let _ ← IO.FS.realPath (p / Package.fileName).shown
      return p
    catch _ => projectAround dir more

/-- The disk as a command sees it. -/
def lookAround (dir : Path) : IO Disk := do
  let place := placeOf (← projectAround dir dir.ancestors)
  let name := (place.getLast?.map Text.shown).getD ""
  return ⟨above place ++ (← picture place name), dir⟩

/-- Write the nodes that are new or have changed. -/
def writeChanges (before after : Disk) : IO Unit := do
  for (place, node) in after.nodes do
    if before.node? place ≠ some node then
      let file := (Disk.pathOf place).shown
      match node with
      | .directory => IO.FS.createDirAll file
      | .file (.text s) => IO.FS.writeFile file s
      | .file (.binary bytes) => IO.FS.writeBinFile file ⟨bytes.toArray⟩
      | .file (.unreadable _) => pure ()
      | .link _ => pure ()

/-- The variables that settings are read from. -/
def environment : IO Environment := do
  let names := ["REGIFY_OUTPUT_DIR", "REGIFY_BASE_PATH", "XDG_CONFIG_HOME", "HOME"]
  let values ← names.mapM fun name => return (← IO.getEnv name).map (Prod.mk name)
  return values.filterMap id

/-- The user's configuration file, if there is one. -/
def userConfiguration (env : Environment) : IO (List (Location × Node)) := do
  match env.configHome? with
  | none => return []
  | some home =>
    let place := placeOf (home / "regify" / Config.fileName)
    try
      return above place ++ (← picture place Config.fileName)
    catch _ => return []

/-- Run the program and hand back its exit code. -/
def program (args : List String) : IO UInt32 := do
  match CommandLine.read args with
  | .error refusal =>
    if refusal = .displayVersion then IO.println "regify 0.1.0"
    else if refusal.isRequest then IO.println CommandLine.usage
    else IO.eprintln s!"error: {refusal.message}\n\n{CommandLine.usage}"
    return refusal.exitCode.toUInt32
  | .ok a =>
    let env ← environment
    let dir := Path.ofString (← IO.FS.realPath (← IO.currentDir)).toString
    let seen ← lookAround dir
    let user ← userConfiguration env
    let known := user.filter fun e => (seen.node? e.1).isNone
    let before : Disk := { seen with nodes := seen.nodes ++ known }
    let ending := (CommandLine.execute Generate.inOrder before env dir a).ending
    writeChanges before ending.disk
    IO.print ending.output
    IO.eprint ending.errors
    return ending.code.toUInt32

end ComponentRegistry.Main

/-- The program. -/
def main (args : List String) : IO UInt32 := ComponentRegistry.Main.program args
