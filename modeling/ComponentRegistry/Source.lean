import ComponentRegistry.Disk.Basic
import ComponentRegistry.Failure
import ComponentRegistry.Script.Module
import ComponentRegistry.Script.References

/-!
# Source files

What the rest of the library sees of a source file: its text, the modules it names, and the
functions it exports.  Files that are no scripts are taken as they are.
-/

namespace ComponentRegistry

structure SourceSummary where
  text : String
  references : List Script.Reference
  exportedFunctions : List String
  /-- The file was parsed; stylesheets and data are not. -/
  parsed : Bool
  deriving DecidableEq, Repr

namespace SourceSummary

/-- The summary of a file that is not parsed. -/
def verbatim (text : String) : SourceSummary := ⟨text, [], [], false⟩

/-- The import statements, in their order. -/
def imports (s : SourceSummary) : List Script.Reference := s.references.filter (·.isImport)

/-- Summarise a text by the rules that the file's name selects. -/
def ofText (path : Path) (text : String) : Except Failure SourceSummary :=
  match Script.Dialect.ofPath? path with
  | none => .ok (verbatim text)
  | some dialect =>
    match Script.parseProgram dialect text.toList with
    | .error fault => .error (.parse path fault.message)
    | .ok program =>
      .ok ⟨text, Script.Program.references program, Script.Program.exportedFunctions program, true⟩

/-- Summarise a file of a disk. -/
def ofFile (d : Disk) (path : Path) : Except Failure SourceSummary :=
  match d.readText path with
  | .error cause => .error (.ofRead path cause)
  | .ok text => ofText path text

end SourceSummary

end ComponentRegistry
