import ComponentRegistry.Config.Basic
import ComponentRegistry.Json.Printer
import ComponentRegistry.Json.Reader

/-!
# The configuration format

Configurations are written as JSON objects without the settings that are open.  Reading accepts an
object, whose unknown members are skipped, or a list of the settings in their order.
-/

namespace ComponentRegistry.Config

open Json.Reader

/-- The settings in the order in which they are written. -/
def fieldNames : List String := ["name", "version", "registryDependencies", "outputDir", "basePath"]

/-- The configuration as a value; open settings are left out. -/
def toJson (c : Config) : Json :=
  .object ([
    ("name", c.name.map .string),
    ("version", c.version.map .string),
    ("registryDependencies", c.registryDependencies.map fun deps =>
      .object (deps.entries.map fun (k, url) => (k, .string url))),
    ("outputDir", c.outputDir.map fun dir => .string dir.shown),
    ("basePath", c.basePathField.map .string)].filterMap fun (key, v) => v.map (Prod.mk key))

/-- The configuration as it is written to a file. -/
def pretty (c : Config) : String := c.toJson.pretty

/-- An object whose values are texts. -/
def readTexts : Json.Reader (KeyMap String) := do
  match ← peekValue? with
  | none => failNext .endInValue
  | some '\x7b' =>
    take
    let add (acc : KeyMap String) (key : String) : Json.Reader (KeyMap String) := do
      colon
      return acc.insert key (← stringValue "a string")
    members add (← roomForItems) true .empty
  | some _ => failType "a map"

/-- Read the value of a setting into a configuration. -/
def readField (c : Config) : String → Json.Reader Config
  | "name" => return { c with name := ← orNull (stringValue "a string") }
  | "version" => return { c with version := ← orNull (stringValue "a string") }
  | "registryDependencies" => return { c with registryDependencies := ← orNull readTexts }
  | "outputDir" => do
    let dir ← orNull (stringValue "path string")
    return { c with outputDir := dir.map Path.ofString }
  | "basePath" => return { c with basePathField := ← orNull (stringValue "a string") }
  | _ => do skipValue; return c

/-- A setting is given twice; the brace that may follow its key is taken. -/
def failTwice {α : Type} (key : String) : Json.Reader α := do
  if (← peekValue?) = some '\x7d' then take
  failHere (.duplicateField key)

/-- The settings of an object. -/
def readObject : Json.Reader Config := do
  take
  let add (acc : List String × Config) (key : String) : Json.Reader (List String × Config) := do
    if acc.1.contains key then failTwice key
    colon
    let c ← readField acc.2 key
    return (if fieldNames.contains key then key :: acc.1 else acc.1, c)
  return (← members add (← roomForItems) true ([], unset)).2

/-- The end of a list of settings. -/
def finishList : Json.Reader Unit := do
  match ← peekValue? with
  | none => failNext .endInList
  | some ']' => take
  | some ',' =>
    take
    match ← peekValue? with
    | some ']' => failNext .trailingComma
    | _ => failNext .trailingCharacters
  | some _ => failNext .trailingCharacters

/-- The settings of a list; those that are missing at its end stay open. -/
def readItems (c : Config) (first : Bool) : List String → Json.Reader Config
  | [] => do finishList; return c
  | field :: more => do
    if ← moreItems first then readItems (← readField c field) false more
    else finishList; return c

/-- A configuration. -/
def read : Json.Reader Config := do
  match ← peekValue? with
  | none => failNext .endInValue
  | some '\x7b' => readObject
  | some '[' => do take; readItems unset true fieldNames
  | some _ => failType "struct RegifyConfig"

/-- The configuration that a text describes; `path` is named in failures. -/
def parse (path : Path) (text : String) : Except Failure Config :=
  match Json.Reader.readAll read text with
  | .error fault => .error (.configParse path fault)
  | .ok c =>
    match c.validate with
    | .error f => .error (.config s!"{f.rootCause.message} (in {path.shown})")
    | .ok c => .ok c

end ComponentRegistry.Config
