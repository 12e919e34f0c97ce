import ComponentRegistry.Failure
import ComponentRegistry.Manifest
import ComponentRegistry.Text.Colour

/-!
# Reports

What a run produced and what failed, how far it is while it goes on, and the texts that tell it.
-/

namespace ComponentRegistry

/-- What a run was asked for. -/
inductive InputKind where
  | file
  | directory
  deriving DecidableEq, Repr

/-- The manifest of a component. -/
structure Generated where
  /-- The file that the walk began at. -/
  source : Path
  manifest : Manifest
  /-- Where it was saved, as seen from the working directory. -/
  savedTo : Option Path
  deriving DecidableEq, Repr

/-- A component without a manifest. -/
structure Failed where
  source : Path
  failure : Failure
  deriving DecidableEq, Repr

structure Report where
  kind : InputKind
  generated : List Generated
  failures : List Failed
  deriving DecidableEq, Repr

/-- One component of a run is done. -/
structure Progress where
  current : Nat
  total : Nat
  message : String
  succeeded : Bool
  deriving DecidableEq, Repr

/-- The share that is done, in percent; nothing of nothing is none. -/
def Progress.percentage (p : Progress) : Float :=
  if p.total = 0 then 0.0
  else p.current.toUInt64.toFloat / p.total.toUInt64.toFloat * 100.0

def Generated.message (g : Generated) : String :=
  match g.savedTo with
  | some path => s!"Saved to - {path.shown}"
  | none => s!"Generated - {g.manifest.name}"

namespace Report

def total (r : Report) : Nat := r.generated.length + r.failures.length

def isSuccess (r : Report) : Bool := r.failures.isEmpty

def manifests (r : Report) : List Manifest := r.generated.map (·.manifest)

/-- Refuse a report with failures. -/
def check (r : Report) : Except Failure Unit :=
  if r.isSuccess then .ok () else .error (.batchFailed r.failures.length r.total)

/-- The manifests as a value: the manifest of a file, or the list for a directory. -/
def toJson (r : Report) : Json :=
  match r.kind, r.generated with
  | .file, [g] => g.manifest.toJson
  | _, _ => .array (r.manifests.map Manifest.toJson)

def json (r : Report) : String := r.toJson.pretty

/-- What a run came to, in one line. -/
def headline (r : Report) : String :=
  if !r.isSuccess then
    s!"Generated {r.generated.length} of {r.total} registries ({r.failures.length} failed)"
  else match r.kind with
    | .file => "Registry generated successfully!"
    | .directory =>
      if r.total = 0 then "No component files found."
      else s!"All registries generated successfully! ({r.total})"

def headlineStyle (r : Report) : Text.Style :=
  if !r.isSuccess then .bold .red
  else if r.total = 0 then .plain .yellow
  else .bold .green

/-- The line of a component that failed. -/
def failureLine (colours : Bool) (f : Failed) : String :=
  let file := f.source.shown
  let message := f.failure.rootCause.message
  if colours then
    let cross := Text.Style.paint (.plain .red) "x"
    s!"  {cross} {Text.Style.strong.paint file}: {Text.Style.dimmed.paint message}\n"
  else s!"  x {file}: {message}\n"

/-- The summary of a run: its headline and a line for each failure. -/
def summary (r : Report) (colours : Bool) : String :=
  let first := if colours then r.headlineStyle.paint r.headline else r.headline
  first ++ "\n" ++ String.join (r.failures.map (failureLine colours))

end Report

end ComponentRegistry
