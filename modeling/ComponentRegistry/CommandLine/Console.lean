import ComponentRegistry.CommandLine.Basic

/-!
# The console

The lines that commands show, each on the standard output or the error output.  Lines with a label
are coloured unless colours are off; when the console is quiet only warnings and errors are shown.
-/

namespace ComponentRegistry.CommandLine

inductive Stream where
  | standard
  | error
  deriving DecidableEq, Repr

/-- A text and where it is shown, without the line feed that ends it. -/
structure Line where
  stream : Stream
  text : String
  deriving DecidableEq, Repr

structure Console where
  quiet : Bool
  verbose : Nat
  useColours : Bool
  deriving DecidableEq, Repr

def Arguments.console (a : Arguments) : Console := ⟨a.quiet, a.verbose, !a.noColours⟩

namespace Console

/-- A label and a message in one colour, the label in bold. -/
def labelled (c : Console) (colour : Text.Colour) (label message : String) : String :=
  if c.useColours then
    (Text.Style.bold colour).paint label ++ " " ++ (Text.Style.plain colour).paint message
  else label ++ " " ++ message

/-- A plain line. -/
def print (c : Console) (message : String) : List Line :=
  if c.quiet then [] else [⟨.standard, message⟩]

def success (c : Console) (message : String) : List Line :=
  if c.quiet then [] else [⟨.standard, c.labelled .green "Success:" message⟩]

def warn (c : Console) (message : String) : List Line :=
  [⟨.error, c.labelled .yellow "Warning:" message⟩]

def error (c : Console) (message : String) : List Line :=
  [⟨.error, c.labelled .red "Error:" message⟩]

/-- What is shown when a component is done. -/
def progress (c : Console) (p : Progress) : List Line :=
  let told := if p.succeeded then c.success p.message else c.error p.message
  if 0 < c.verbose then told ++ c.print s!"[{p.current}/{p.total}] done" else told

end Console

/-- The text that the lines make on a stream. -/
def textOn (stream : Stream) (lines : List Line) : String :=
  String.join ((lines.filter fun l => l.stream = stream).map fun l => l.text ++ "\n")

end ComponentRegistry.CommandLine
