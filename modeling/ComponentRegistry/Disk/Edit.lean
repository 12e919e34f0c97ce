import ComponentRegistry.Disk.Basic

/-!
# Changing a disk

Writing and removing files and making directories, with the faults that the system reports.
-/

namespace ComponentRegistry.Disk

/-- Put a node at a place, in place of what stands there. -/
def put (d : Disk) (l : Location) (n : Node) : Disk :=
  if d.nodes.any (fun e => e.1 = l) then
    { d with nodes := d.nodes.map fun e => if e.1 = l then (l, n) else e }
  else { d with nodes := d.nodes ++ [(l, n)] }

/-- What comes of a step that cannot be taken when a file is to be written: the last name may be
missing, unless a slash follows it. -/
def siteMissing (here : Location) (e : IoFault) : Step → List Step → Except IoFault Location
  | .down name, [] => if e = .notFound then .ok (here ++ [name]) else .error e
  | _, [.stay] => if e = .notFound then .error .isDirectory else .error e
  | _, _ => .error e

/-- Follow steps to a file that is to be written; `through` goes on behind the first link. -/
def siteWith (d : Disk) (through : Location → List Step → Except IoFault Location) :
    Location → List Step → Except IoFault Location
  | here, [] => .ok here
  | here, step :: rest =>
    match d.takeStep here step with
    | .ok (.place l) => siteWith d through l rest
    | .ok (.link target) => through here (stepsOf target ++ rest)
    | .error e => siteMissing here e step rest

/-- Where a file stands that is to be written by these steps, through so many links at most; a link
may also lead to nothing yet. -/
def site (d : Disk) (links : Nat) (here : Location) (steps : List Step) : Except IoFault Location :=
  match links with
  | 0 => d.siteWith (fun _ _ => .error .tooManyLinks) here steps
  | links + 1 => d.siteWith (d.site links) here steps

/-- Write a file's whole text; its directory has to be there. -/
def writeFile (d : Disk) (p : Path) (content : Content) : Except IoFault Disk :=
  match refusal? p with
  | some e => .error e
  | none =>
    match d.site linkLimit [] (stepsOf (d.absolute p)) with
    | .error e => .error e
    | .ok place =>
      if d.node? place = some .directory then .error .isDirectory
      else .ok (d.put place (.file content))

/-- Make one directory. -/
def makeDirectory (d : Disk) (p : Path) : Except IoFault Disk :=
  match refusal? p with
  | some e => .error e
  | none =>
    let steps := stepsOf (d.absolute p)
    let named := (steps.reverse.dropWhile (· = Step.stay)).reverse
    match named.getLast? with
    | some (.down name) =>
      match d.follow linkLimit [] named.dropLast with
      | .error e => .error e
      | .ok dir =>
        if d.node? dir ≠ some .directory then .error .notDirectory
        else if nameLimit < Text.byteCount name then .error .nameTooLong
        else if (d.node? (dir ++ [name])).isSome then .error .fileExists
        else .ok (d.put (dir ++ [name]) .directory)
    | _ =>
      match d.follow linkLimit [] steps with
      | .error e => .error e
      | .ok _ => .error .fileExists

/-- Make a directory and those above it; the paths are given from the directory up.  The outcome, and
the disk after it: what was made stays if the directory itself cannot be made. -/
def makeAllFrom (d : Disk) : List Path → Except IoFault Unit × Disk
  | [] => (.error (.other false "failed to create whole tree"), d)
  | p :: above =>
    if p.isEmpty then (.ok (), d)
    else match d.makeDirectory p with
      | .ok made => (.ok (), made)
      | .error e =>
        if e ≠ .notFound then (if d.isDirectory p then .ok () else .error e, d)
        else match makeAllFrom d above with
          | (.error e, after) => (.error e, after)
          | (.ok (), ready) =>
            match ready.makeDirectory p with
            | .ok made => (.ok (), made)
            | .error e => (if ready.isDirectory p then .ok () else .error e, ready)

/-- Make a directory and those above it that are missing; the outcome, and the disk after it. -/
def makeTree (d : Disk) (p : Path) : Except IoFault Unit × Disk := makeAllFrom d p.ancestors

/-- The disk with a directory and those above it, if all of them can be made. -/
def makeDirectories (d : Disk) (p : Path) : Except IoFault Disk :=
  let (made, after) := d.makeTree p
  made.map fun _ => after

/-- Put a link where nothing stands. -/
def makeLink (d : Disk) (p target : Path) : Except IoFault Disk :=
  let steps := stepsOf (d.absolute p)
  match steps.getLast? with
  | some (.down name) =>
    match d.follow linkLimit [] steps.dropLast with
    | .error e => .error e
    | .ok dir =>
      if (d.node? (dir ++ [name])).isSome then .error .fileExists
      else .ok (d.put (dir ++ [name]) (.link target))
  | _ => .error .fileExists

/-- Remove what stands at a path and below it; a link itself goes, not what it leads to. -/
def remove (d : Disk) (p : Path) : Disk :=
  let steps := stepsOf (d.absolute p)
  match steps.getLast? with
  | some (.down name) =>
    match d.follow linkLimit [] steps.dropLast with
    | .error _ => d
    | .ok dir =>
      let place := dir ++ [name]
      { d with nodes := d.nodes.filter fun e => !(place.isPrefixOf e.1) }
  | _ => d

/-- Everything below a directory: places relative to it, and what stands there. -/
def below (d : Disk) (l : Location) : List (Location × Node) :=
  d.nodes.filterMap fun (place, node) =>
    if l.isPrefixOf place && place ≠ l then some (place.drop l.length, node) else none

end ComponentRegistry.Disk
