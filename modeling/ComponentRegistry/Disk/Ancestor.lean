import ComponentRegistry.Disk.Basic

/-!
# Searching upwards

The nearest directory at or above a path that holds a file of some name.
-/

namespace ComponentRegistry.Disk

/-- The nearest directory at or above `start` that holds a file `name`. -/
def ancestorWith? (d : Disk) (start : Path) (name : String) : Option Path :=
  start.ancestors.find? fun dir => d.isFile (dir / name)

/-- The first of the files `names` in the nearest directory that holds one of them. -/
def fileUpward? (d : Disk) (start : Path) (names : List String) : Option Path :=
  start.ancestors.findSome? fun dir => (names.map fun name => dir / name).find? d.isFile

end ComponentRegistry.Disk
