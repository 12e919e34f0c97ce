import ComponentRegistry.Config.Source
import ComponentRegistry.Generate

/-!
# The command line

What a command line asks for, and why one is not accepted.  Some options may stand before or after
the command's name; the others belong to one command.
-/

namespace ComponentRegistry.CommandLine

/-- Why a command line is not carried out. -/
inductive Refusal where
  | unknownArgument
  | invalidSubcommand
  | missingSubcommand
  | missingRequiredArgument
  | argumentConflict
  | invalidValue
  | valueValidation
  | tooManyValues
  /-- Help is asked for. -/
  | displayHelp
  /-- The version is asked for. -/
  | displayVersion
  /-- Nothing at all is given. -/
  | displayHelpOnMissing
  deriving DecidableEq, Repr

namespace Refusal

/-- Asking for help or the version is no mistake. -/
def isRequest : Refusal → Bool
  | .displayHelp => true
  | .displayVersion => true
  | _ => false

/-- What is wrong with the arguments. -/
def message : Refusal → String
  | .unknownArgument => "unexpected argument"
  | .invalidSubcommand => "unrecognized subcommand"
  | .missingSubcommand => "a subcommand is required"
  | .missingRequiredArgument => "a required argument is missing"
  | .argumentConflict => "arguments that exclude each other"
  | .invalidValue => "a value is required"
  | .valueValidation => "invalid value"
  | .tooManyValues => "unexpected value"
  | .displayHelp => "help"
  | .displayVersion => "version"
  | .displayHelpOnMissing => "a subcommand is required"

def exitCode (r : Refusal) : Nat := if r.isRequest then 0 else 2

end Refusal

/-- How the program is called. -/
def usage : String := "\n".intercalate [
  "Usage: regify [OPTIONS] <COMMAND>",
  "",
  "Commands:",
  "  init      Create a regify.json with default settings in the current directory",
  "  generate  Generate registry manifests for a component file or directory",
  "",
  "Options:",
  "  -v, --verbose        Say more",
  "  -q, --quiet          Only print warnings and errors",
  "      --no-colors      Disable colored output",
  "  -c, --config <FILE>  A regify.json to use instead of the discovered one",
  "  -h, --help           Print help",
  "  -V, --version        Print version",
  "",
  "Options of generate:",
  "  -i, --input <PATH>        Component file or directory of components",
  "  -n, --name <NAME>         Manifest file name for a single file input",
  "  -o, --output <DIR>        Output directory",
  "      --rawjson             Print manifests as JSON instead of saving them",
  "      --base-path <PREFIX>  Prefix for file paths recorded in manifests",
  "  -j, --jobs <JOBS>         Worker threads for directory inputs"]

structure GenerateArguments where
  input : Path
  name : Option String
  output : Option Path
  rawJson : Bool
  basePath : Option String
  jobs : Option Nat
  deriving DecidableEq, Repr

inductive Command where
  /-- Write a configuration file. -/
  | init
  /-- Generate manifests. -/
  | generate (arguments : GenerateArguments)
  deriving DecidableEq, Repr

structure Arguments where
  verbose : Nat
  quiet : Bool
  noColours : Bool
  config : Option Path
  command : Command
  deriving DecidableEq, Repr

namespace Arguments

/-- What the arguments say about settings. -/
def flags (a : Arguments) : Config.Flags :=
  match a.command with
  | .init => ⟨none, none, a.config⟩
  | .generate g => ⟨g.output, g.basePath, a.config⟩

end Arguments

end ComponentRegistry.CommandLine
