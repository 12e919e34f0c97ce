import ComponentRegistry.Manifest
import ComponentRegistry.Source
import ComponentRegistry.Text.Blank

/-!
# Classification

Which type a file has.  The checks have a fixed order and the first that applies decides: the
extension of a stylesheet, a file name that begins with `use`, a directory of the path below the
root, then what the parsed file exports and whether it returns markup.
-/

namespace ComponentRegistry.Classification

def styleExtensions : List String := ["css", "scss", "sass", "less"]

def codeExtensions : List String := ["ts", "tsx", "js", "jsx"]

/-- How the names of hooks begin. -/
def hookStart : List Char := "use".toList

/-- Directories that decide the type, in their order of precedence. -/
def directoryTypes : List (RegistryType × List String) :=
  [(.ui, ["ui"]), (.hook, ["hooks"]), (.lib, ["lib", "utils"]), (.style, ["styles", "css"])]

/-- The names of the directories above a relative path's last component. -/
def directoriesOf (relative : Path) : List String :=
  match relative.parent? with
  | none => []
  | some dir => dir.components.filterMap fun c => match c with
    | .normal name => Text.text? name
    | _ => none

/-- The type that the directories decide. -/
def byDirectory (directories : List String) : Option RegistryType :=
  (directoryTypes.find? fun (_, names) => directories.any names.contains).map (·.1)

/-- A function that begins with `use` is exported. -/
def exportsHook (s : SourceSummary) : Bool :=
  s.exportedFunctions.any fun name => Text.startsWith hookStart name.toList

def isUpper (c : Char) : Bool := 'A' ≤ c && c ≤ 'Z'

def isLower (c : Char) : Bool := 'a' ≤ c && c ≤ 'z'

/-- After a `<`: an upper case letter, or lower case letters and then a blank. -/
def opensTag (rest : List Char) : Bool :=
  match rest with
  | [] => false
  | c :: _ =>
    isUpper c ||
      (isLower c && ((rest.dropWhile isLower).head?.any Text.isBlank))

/-- Something in the text looks like an opening tag. -/
def hasTag : List Char → Bool
  | [] => false
  | c :: r => (c == '<' && opensTag r) || hasTag r

/-- The text seems to return markup: a `return` before a parenthesis or a tag, and some tag. -/
def returnsMarkup (text : List Char) : Bool :=
  (Text.containsWord "return (".toList text || Text.containsWord "return<".toList text) &&
    hasTag text

/-- The type that the content of a parsed file decides. -/
def byContent (s : SourceSummary) (extension : String) : Option RegistryType :=
  if exportsHook s then some .hook
  else if (extension = "tsx" || extension = "jsx") && returnsMarkup s.text.toList then some .ui
  else none

/-- The file name and the extension, which both have to be text. -/
def nameOf (path : Path) : Except Failure (String × String) :=
  match path.fileName? with
  | none => .error (.classification path "path has no file name")
  | some name =>
    match Text.text? name with
    | none => .error (.classification path "file name is not valid UTF-8")
    | some fileName =>
      match path.extension? with
      | none => .ok (fileName, "")
      | some ext =>
        match Text.text? ext with
        | none => .error (.classification path "extension is not valid UTF-8")
        | some extension => .ok (fileName, extension)

/-- The type of the file at `path` in the project at `root`; without a summary only its path
counts. -/
def classify (path root : Path) (summary : Option SourceSummary) : Except Failure RegistryType := do
  let (fileName, extension) ← nameOf path
  let isCode := codeExtensions.contains extension
  if styleExtensions.contains extension then return .style
  if isCode && Text.startsWith hookStart fileName.toList then return .hook
  if let some t := byDirectory (directoriesOf (path.relative root)) then return t
  match summary with
  | some s => if isCode && s.parsed then return (byContent s extension).getD .lib else return .lib
  | none => return .lib

end ComponentRegistry.Classification
