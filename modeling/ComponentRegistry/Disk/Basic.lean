import ComponentRegistry.IoFault
import ComponentRegistry.Path.Basic

/-!
# Disks

What programs see of a file system: a finite tree of directories, files and symbolic links, and the
directory that relative paths start from.  A place in the tree is the list of names that leads to
it from the root.  Following a path goes name by name, through the links it meets.
-/

namespace ComponentRegistry

/-- What reading a file gives: text, bytes that are no UTF-8, or a fault. -/
inductive Content where
  | text (s : String)
  | binary (bytes : List UInt8)
  /-- The file is there, and reading it is refused; it can still be written anew. -/
  | unreadable (cause : IoFault)
  deriving DecidableEq, Repr

def Content.ofBytes (bytes : List UInt8) : Content :=
  match Text.text? (Text.glyphs bytes) with
  | some s => .text s
  | none => .binary bytes

inductive Node where
  | directory
  | file (content : Content)
  | link (target : Path)
  deriving DecidableEq, Repr

/-- Names from the root down. -/
abbrev Location := List Name

structure Disk where
  /-- What stands where; the root is a directory even if it is not listed. -/
  nodes : List (Location × Node)
  /-- Where relative paths start. -/
  workingDirectory : Path
  deriving DecidableEq, Repr

namespace Disk

/-- What stands at a place. -/
def node? (d : Disk) (l : Location) : Option Node :=
  match l with
  | [] => some .directory
  | l => (d.nodes.find? fun e => e.1 = l).map (·.2)

/-- The places that are listed. -/
def locations (d : Disk) : List Location := d.nodes.map (·.1)

/-- One step of following a path. -/
inductive Step where
  | toRoot
  /-- Stay, which is only possible in a directory. -/
  | stay
  | up
  | down (name : Name)
  deriving DecidableEq, Repr

def stepOf (segment : Name) : Option Step :=
  if segment = [] then none
  else if segment = Path.dot then some .stay
  else if segment = Path.dotDot then some .up
  else some (.down segment)

/-- The steps of a path; a slash at its end asks for a directory. -/
def stepsOf (p : Path) : List Step :=
  let segments := Text.splitAt Path.separator p.glyphs
  let start := if p.isAbsolute then [Step.toRoot] else []
  let finish := if segments.getLast? = some [] then [Step.stay] else []
  start ++ segments.filterMap stepOf ++ finish

/-- How many links may be followed. -/
def linkLimit : Nat := 40

/-- The most bytes that a name may have. -/
def nameLimit : Nat := 255

/-- A path has fewer bytes than this. -/
def pathLimit : Nat := 4096

/-- Why a path leads nowhere, whatever the disk holds. -/
def refusal? (p : Path) : Option IoFault :=
  if p.isEmpty then some .notFound
  else if p.glyphs.contains (.char '\x00') then some .nulInPath
  else if pathLimit ≤ Text.byteCount p.glyphs then some .nameTooLong
  else none

/-- Where one step leads. -/
inductive Arrival where
  | place (l : Location)
  /-- A link stands there and has to be followed first. -/
  | link (target : Path)
  deriving DecidableEq, Repr

/-- Take one step from a place. -/
def takeStep (d : Disk) (here : Location) (step : Step) : Except IoFault Arrival :=
  match step with
  | .toRoot => .ok (.place [])
  | .stay =>
    if d.node? here = some .directory then .ok (.place here) else .error .notDirectory
  | .up =>
    if d.node? here = some .directory then .ok (.place here.dropLast) else .error .notDirectory
  | .down name =>
    if d.node? here ≠ some .directory then .error .notDirectory
    else if nameLimit < Text.byteCount name then .error .nameTooLong
    else match d.node? (here ++ [name]) with
      | none => .error .notFound
      | some (.link target) => .ok (.link target)
      | some _ => .ok (.place (here ++ [name]))

/-- Follow steps from a place; `through` goes on behind the first link. -/
def followWith (d : Disk) (through : Location → List Step → Except IoFault Location) :
    Location → List Step → Except IoFault Location
  | here, [] => .ok here
  | here, step :: rest =>
    match d.takeStep here step with
    | .error e => .error e
    | .ok (.place l) => followWith d through l rest
    | .ok (.link target) => through here (stepsOf target ++ rest)

/-- Follow steps from a place, through so many links at most; the answer exists on the disk. -/
def follow (d : Disk) (links : Nat) (here : Location) (steps : List Step) :
    Except IoFault Location :=
  match links with
  | 0 => d.followWith (fun _ _ => .error .tooManyLinks) here steps
  | links + 1 => d.followWith (d.follow links) here steps

/-- A path as seen from the root. -/
def absolute (d : Disk) (p : Path) : Path := d.workingDirectory.join p

/-- The place that a path leads to. -/
def locate (d : Disk) (p : Path) : Except IoFault Location :=
  match refusal? p with
  | some e => .error e
  | none => follow d linkLimit [] (stepsOf (d.absolute p))

/-- What a path leads to. -/
def stat (d : Disk) (p : Path) : Except IoFault Node :=
  match d.locate p with
  | .error e => .error e
  | .ok l => (d.node? l).elim (.error .notFound) .ok

def has (d : Disk) (p : Path) : Bool := (d.stat p).isOk

def isFile (d : Disk) (p : Path) : Bool :=
  match d.stat p with
  | .ok (.file _) => true
  | _ => false

def isDirectory (d : Disk) (p : Path) : Bool :=
  match d.stat p with
  | .ok .directory => true
  | _ => false

/-- The path of a place. -/
def pathOf (l : Location) : Path := ⟨Path.separator :: Text.joinWith Path.separator l⟩

/-- The path without links and turns that leads to the same place. -/
def canonical (d : Disk) (p : Path) : Except IoFault Path := (d.locate p).map pathOf

/-- The text of the file that a path leads to. -/
def readText (d : Disk) (p : Path) : Except IoFault String :=
  match d.stat p with
  | .error e => .error e
  | .ok (.file (.text s)) => .ok s
  | .ok (.file (.binary _)) => .error .notText
  | .ok (.file (.unreadable cause)) => .error cause
  | .ok _ => .error .isDirectory

/-- The names in a directory with what they stand for; links are not followed. -/
def entries (d : Disk) (l : Location) : List (Name × Node) :=
  d.nodes.filterMap fun (place, node) =>
    match place.getLast? with
    | some name => if place.dropLast = l then some (name, node) else none
    | none => none

end Disk

end ComponentRegistry
