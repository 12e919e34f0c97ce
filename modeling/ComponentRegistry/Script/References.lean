import ComponentRegistry.Script.Syntax

/-!
# What a program refers to and exports

The modules that the top-level statements of a program name, in their order, and the functions that
it exports: those declared where they are exported, and after them the other declared functions
whose name is exported anywhere in the program.
-/

namespace ComponentRegistry.Script

/-- How a module is named. -/
inductive ReferenceKind where
  | value
  | typeOnly
  | reexport
  deriving DecidableEq, Repr

/-- A module named by a statement. -/
structure Reference where
  specifier : String
  kind : ReferenceKind
  deriving DecidableEq, Repr

/-- A reference the module itself depends on; names passed on are not. -/
def Reference.isImport (r : Reference) : Bool := r.kind != .reexport

def Statement.reference? : Statement → Option Reference
  | .importFrom source typeOnly => some ⟨source, if typeOnly then .typeOnly else .value⟩
  | .exportFrom source => some ⟨source, .reexport⟩
  | _ => none

/-- The function that a statement declares and exports at once. -/
def Statement.exportedFunction? : Statement → Option String
  | .exportFunction name => some name
  | _ => none

/-- The function that a statement declares without exporting it. -/
def Statement.localFunction? : Statement → Option String
  | .function name => some name
  | _ => none

/-- The local names that a statement exports. -/
def Statement.exportedNames : Statement → List String
  | .exportNames names => names
  | .exportDefaultName name => [name]
  | _ => []

namespace Program

def references (p : Program) : List Reference := p.filterMap Statement.reference?

/-- Append the names that are exported and not yet listed. -/
def appendExported (exported : List String) : List String → List String → List String
  | listed, [] => listed
  | listed, name :: more =>
    if exported.contains name && !listed.contains name then
      appendExported exported (listed ++ [name]) more
    else appendExported exported listed more

def exportedFunctions (p : Program) : List String :=
  appendExported (p.flatMap Statement.exportedNames) (p.filterMap Statement.exportedFunction?)
    (p.filterMap Statement.localFunction?)

end Program

end ComponentRegistry.Script
