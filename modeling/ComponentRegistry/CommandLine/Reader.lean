import ComponentRegistry.CommandLine.Basic

/-!
# Reading command lines

Arguments are taken from left to right.  An option that takes a value takes the next argument,
unless that is an option itself; its value is checked when the next option comes or the arguments
end.  After `--` nothing is an option any more.
-/

namespace ComponentRegistry.CommandLine

inductive Flag where
  | verbose
  | quiet
  | noColours
  | config
  | help
  | version
  | input
  | name
  | output
  | rawJson
  | basePath
  | jobs
  deriving DecidableEq, Repr

/-- The values that an option accepts. -/
inductive ValueKind where
  | text
  /-- Some text. -/
  | path
  | count
  deriving DecidableEq, Repr

inductive FlagKind where
  /-- Each occurrence counts. -/
  | counter
  /-- It may occur once. -/
  | switch
  | valued (kind : ValueKind)
  /-- Asking for something ends the reading. -/
  | request (answer : Refusal)
  deriving DecidableEq, Repr

def Flag.kind : Flag → FlagKind
  | .verbose => .counter
  | .quiet => .switch
  | .noColours => .switch
  | .config => .valued .path
  | .help => .request .displayHelp
  | .version => .request .displayVersion
  | .input => .valued .path
  | .name => .valued .text
  | .output => .valued .path
  | .rawJson => .switch
  | .basePath => .valued .text
  | .jobs => .valued .count

def Flag.takesValue (f : Flag) : Bool :=
  match f.kind with
  | .valued _ => true
  | _ => false

/-- The spelling of a flag: its long name and, for some, a letter. -/
structure Spelling where
  flag : Flag
  long : String
  short : Option Char

/-- Flags that stand before and after the command's name. -/
def sharedFlags : List Spelling := [
  ⟨.verbose, "verbose", some 'v'⟩,
  ⟨.quiet, "quiet", some 'q'⟩,
  ⟨.noColours, "no-colors", none⟩,
  ⟨.config, "config", some 'c'⟩,
  ⟨.help, "help", some 'h'⟩]

/-- Where arguments stand: before the command's name, or after it. -/
inductive Level where
  | top
  | init
  | generate
  deriving DecidableEq, Repr

/-- The flags that a level knows. -/
def Level.flags : Level → List Spelling
  | .top => sharedFlags ++ [⟨.version, "version", some 'V'⟩]
  | .init => sharedFlags
  | .generate => sharedFlags ++ [
      ⟨.input, "input", some 'i'⟩,
      ⟨.name, "name", some 'n'⟩,
      ⟨.output, "output", some 'o'⟩,
      ⟨.rawJson, "rawjson", none⟩,
      ⟨.basePath, "base-path", none⟩,
      ⟨.jobs, "jobs", some 'j'⟩]

def Level.long? (l : Level) (name : String) : Option Flag :=
  (l.flags.find? fun s => s.long = name).map (·.flag)

def Level.short? (l : Level) (c : Char) : Option Flag :=
  (l.flags.find? fun s => s.short = some c).map (·.flag)

/-- The command of a name; `help` is none. -/
def command? : String → Option Level
  | "init" => some .init
  | "generate" => some .generate
  | _ => none

/-- The name that asks for the help of a command. -/
def helpName : String := "help"

/-- The greatest machine word. -/
def countMax : Nat := Nat.pow 2 64 - 1

/-- A count: digits, perhaps after a plus sign. -/
def count? (s : String) : Option Nat :=
  let digits := match s.toList with
    | '+' :: r => r
    | cs => cs
  if digits.isEmpty || !digits.all Char.isDigit then none
  else
    let n := digits.foldl (fun n c => 10 * n + (c.toNat - '0'.toNat)) 0
    if n ≤ countMax then some n else none

def ValueKind.check (kind : ValueKind) (v : String) : Except Refusal Unit :=
  match kind with
  | .text => .ok ()
  | .path => if v.isEmpty then .error .invalidValue else .ok ()
  | .count => if (count? v).isSome then .ok () else .error .valueValidation

/-- What the arguments of a level have given so far. -/
structure Given where
  /-- How often the counter occurred. -/
  verbosity : Nat
  switches : List Flag
  values : List (Flag × String)
  /-- An option whose value is not yet checked, or not yet there. -/
  pending : Option (Flag × Option String)
  deriving Repr

def Given.nothing : Given := ⟨0, [], [], none⟩

namespace Given

def has (g : Given) (f : Flag) : Bool :=
  match f.kind with
  | .counter => 0 < g.verbosity
  | .switch => g.switches.contains f
  | .valued _ => g.values.any fun e => e.1 = f
  | .request _ => false

def value? (g : Given) (f : Flag) : Option String :=
  (g.values.find? fun e => e.1 = f).map (·.2)

/-- Something is given. -/
def isAny (g : Given) : Bool := 0 < g.verbosity || !g.switches.isEmpty || !g.values.isEmpty

/-- Take the value of an option. -/
def takeValue (g : Given) (f : Flag) (kind : ValueKind) : Option String → Except Refusal Given
  | none => .error .invalidValue
  | some v =>
    if g.has f then .error .argumentConflict
    else do
      kind.check v
      return { g with values := g.values ++ [(f, v)] }

/-- Check the option that is pending. -/
def settle (g : Given) : Except Refusal Given :=
  match g.pending with
  | none => .ok g
  | some (f, v) =>
    let g := { g with pending := none }
    match f.kind with
    | .valued kind => g.takeValue f kind v
    | _ => .ok g

/-- How far the counter goes. -/
def verbosityMax : Nat := 255

/-- Take a flag, with the value that is attached to it. -/
def takeFlag (g : Given) (f : Flag) (attached : Option String) : Except Refusal Given :=
  match f.kind, attached with
  | .valued kind, some v => do (← g.settle).takeValue f kind (some v)
  | .valued _, none => do return { (← g.settle) with pending := some (f, none) }
  | _, some _ => .error .tooManyValues
  | .request answer, none => do let _ ← g.settle; throw answer
  | .counter, none => do
    let g ← g.settle
    return { g with verbosity := min verbosityMax (g.verbosity + 1) }
  | .switch, none => do
    let g ← g.settle
    if g.has f then throw .argumentConflict
    return { g with switches := f :: g.switches }

/-- Take the letters after a dash; a letter that takes a value takes the rest. -/
def takeLetters (l : Level) (g : Given) : List Char → Except Refusal Given
  | [] => .ok g
  | c :: rest =>
    match l.short? c with
    | none => .error .unknownArgument
    | some f =>
      if f.takesValue then
        let attached := match rest with
          | [] => none
          | '=' :: v => some (String.ofList v)
          | v => some (String.ofList v)
        g.takeFlag f attached
      else do takeLetters l (← g.takeFlag f none) rest

/-- Take the text after two dashes. -/
def takeLong (l : Level) (g : Given) (text : List Char) : Except Refusal Given :=
  let (name, attached) := match Text.splitOnce? '=' text with
    | some (name, v) => (String.ofList name, some (String.ofList v))
    | none => (String.ofList text, none)
  match l.long? name with
  | none => .error .unknownArgument
  | some f => g.takeFlag f attached

/-- An option waits for its value. -/
def awaitsValue (g : Given) : Bool :=
  match g.pending with
  | some (_, none) => true
  | _ => false

def giveValue (g : Given) (v : String) : Given :=
  { g with pending := g.pending.map fun (f, _) => (f, some v) }

end Given

/-- Help for commands named one below the other. -/
def helpFor : List String → Refusal
  | [] => .displayHelp
  | [name] => if (command? name).isSome || name = helpName then .displayHelp else .invalidSubcommand
  | _ => .invalidSubcommand

/-- An argument that is no option and no value. -/
def refuseArgument (l : Level) (trailing : Bool) (arg : String) : Refusal :=
  if l ≠ .top then .unknownArgument
  else if trailing && ((command? arg).isSome || arg = helpName) then .unknownArgument
  else .invalidSubcommand

/-- The arguments of a level, up to the name of a command; that command and what follows it. -/
def takeArguments (l : Level) :
    Given → Bool → List String → Except Refusal (Given × Option (Level × List String))
  | g, _, [] => .ok (g, none)
  | _, true, arg :: _ => .error (refuseArgument l true arg)
  | g, false, arg :: rest =>
    if l = .top && !g.awaitsValue && arg = helpName then .error (helpFor rest)
    else match if l = .top && !g.awaitsValue then command? arg else none with
    | some command => .ok (g, some (command, rest))
    | none =>
      match arg.toList with
      | ['-', '-'] => takeArguments l g true rest
      | '-' :: '-' :: text => do takeArguments l (← g.takeLong l text) false rest
      | '-' :: c :: letters => do takeArguments l (← g.takeLetters l (c :: letters)) false rest
      | _ =>
        if g.awaitsValue then takeArguments l (g.giveValue arg) false rest
        else .error (refuseArgument l false arg)

/-- Flags that exclude each other. -/
def checkConflicts (g : Given) : Except Refusal Unit :=
  if g.has .quiet && g.has .verbose then .error .argumentConflict else .ok ()

/-- The command that the arguments after its name give. -/
def commandOf (l : Level) (g : Given) : Except Refusal Command :=
  match l with
  | .generate =>
    match g.value? .input with
    | none => .error .missingRequiredArgument
    | some input => .ok (.generate {
        input := Path.ofString input
        name := g.value? .name
        output := (g.value? .output).map Path.ofString
        rawJson := g.has .rawJson
        basePath := g.value? .basePath
        jobs := (g.value? .jobs).bind count? })
  | _ => .ok .init

/-- Both levels together; what stands after the command's name counts more. -/
def combine (above below : Given) (command : Command) : Arguments where
  verbose := if below.verbosity = 0 then above.verbosity else below.verbosity
  quiet := above.has .quiet || below.has .quiet
  noColours := above.has .noColours || below.has .noColours
  config := ((below.value? .config).or (above.value? .config)).map Path.ofString
  command := command

/-- The arguments after the name of a command. -/
def readCommand (l : Level) (rest : List String) : Except Refusal (Given × Command) := do
  let (given, _) ← takeArguments l .nothing false rest
  let given ← given.settle
  checkConflicts given
  return (given, ← commandOf l given)

/-- What the arguments after the program's name ask for. -/
def read (args : List String) : Except Refusal Arguments := do
  match ← takeArguments .top .nothing false args with
  | (above, none) =>
    let above ← above.settle
    throw (if above.isAny then .missingSubcommand else .displayHelpOnMissing)
  | (above, some (level, rest)) =>
    let (below, command) ← readCommand level rest
    let above ← above.settle
    checkConflicts above
    return combine above below command

end ComponentRegistry.CommandLine
