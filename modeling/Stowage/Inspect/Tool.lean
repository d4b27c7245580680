import Stowage.Inspect.CommandLine
import Stowage.Inspect.Export
import Stowage.Inspect.Listing
/-!
# The inspection tool

The tool opens the container that its command line names, carries out one command and ends. What
it prints and how it ends is a value (`ToolResult`); nothing is printed here.
-/

namespace Stowage

/-- What a tool prints and with which code it exits. -/
structure ToolResult where
  exitCode : Nat
  output : Bytes
  messages : String
  deriving DecidableEq, Repr

namespace InspectTool

open FileSystem (Call)

/-- The result of a tool that has succeeded. -/
def printed (output : String) : ToolResult := ⟨0, Text.encode output, ""⟩

/-- The lines of a text, all but the first one indented. -/
def indentRest (indent text : String) : String :=
  (String.ofList ['\n'] ++ indent).intercalate
    ((text.toList.splitOn '\n').map String.ofList)

/-- The causes of an error, numbered if there are several. -/
def causes : List String → String
  | [] => ""
  | [cause] => "\n    " ++ indentRest "    " cause
  | all => String.join (all.zipIdx.map fun (cause, i) =>
    "\n" ++ Text.padLeft 5 (toString i) ++ ": " ++ indentRest "       " cause)

/-- The report of an error with what caused it. -/
def report (messages : List String) : String :=
  let head := "Error: " ++ messages.headD ""
  match messages.drop 1 with
  | [] => head ++ "\n"
  | rest => head ++ "\n\nCaused by:" ++ causes rest ++ "\n"

/-- The result of a tool that has failed. -/
def failed (e : InspectError) : ToolResult := ⟨1, [], report e.messages⟩

variable [Zlib.Inflater]

/-- Carries out a command on an open container. -/
def carryOut (a : Archive) : InspectCommand → Call InspectError ToolResult
  | .list asJson => do
    let rs ← .askResult fun _ => (Listing.entries a).mapError .archive
    return printed (if asJson then (Listing.entriesJson rs).text ++ "\n" else Listing.table rs)
  | .info asJson => do
    let f ← .askResult fun _ => (Listing.facts a).mapError .archive
    return printed (if asJson then (Listing.factsJson f).text ++ "\n" else Listing.factsText f)
  | .extract name (some output) => do
    let count ← a.exportTo name output
    return ⟨0, [], s!"wrote {count} bytes to {output.text}\n"⟩
  | .extract name none => do
    return ⟨0, ← a.showEntry name, ""⟩

/-- The version of the tool. -/
def version : String := "bootpack-inspect 0.1.0\n"

/-- What every topic of help says of the option for help. -/
def helpOption : String := "  -h, --help  Print help\n"

/-- What help says of itself. -/
def helpPurpose : String := "Print this message or the help of the given subcommand(s)\n"

/-- The help on a topic. -/
def helpText : HelpTopic → String
  | .tool => String.join ["Inspect a bootpack archive (embedded or standalone)\n\n",
      "Usage: bootpack-inspect <ARCHIVE> <COMMAND>\n\n", "Commands:\n",
      "  list     List TOC entries in stored order\n",
      "  extract  Write one entry's decoded payload\n", "  info     Show the cookie fields\n",
      "  help     ", helpPurpose, "\nArguments:\n",
      "  <ARCHIVE>  Executable or container file to inspect\n\n", "Options:\n",
      "  -h, --help     Print help\n", "  -V, --version  Print version\n"]
  | .list => String.join ["List TOC entries in stored order\n\n",
      "Usage: bootpack-inspect <ARCHIVE> list [OPTIONS]\n\n", "Options:\n",
      "      --json  Emit JSON instead of a table\n", helpOption]
  | .extract => String.join ["Write one entry's decoded payload\n\n",
      "Usage: bootpack-inspect <ARCHIVE> extract [OPTIONS] <NAME>\n\n", "Arguments:\n",
      "  <NAME>  Entry name as stored in the TOC\n\n", "Options:\n",
      "  -o, --output <OUTPUT>  Output file (stdout if omitted)\n",
      "  -h, --help             Print help\n"]
  | .info => String.join ["Show the cookie fields\n\n",
      "Usage: bootpack-inspect <ARCHIVE> info [OPTIONS]\n\n", "Options:\n",
      "      --json  \n", helpOption]
  | .help => String.join [helpPurpose,
      "\nUsage: bootpack-inspect <ARCHIVE> help [COMMAND]...\n\n", "Arguments:\n",
      "  [COMMAND]...  Print help for the subcommand(s)\n"]

/-- The exit code for a command line that breaks the rules. -/
def usageExit : Nat := 2

/-- The message about a command line that breaks the rules. -/
def usageMessage : String :=
  "error: invalid arguments\n\nUsage: bootpack-inspect <ARCHIVE> <COMMAND>\n"

/-- Opens a container and carries out a command on it. -/
def inspect (archive : Path) (command : InspectCommand) : Call InspectError ToolResult := do
  let a ← (Archive.load archive).withError (.cannotOpen archive)
  carryOut a command

/-- Runs the tool with the arguments of its command line. -/
def run (args : List String) : Call Empty ToolResult :=
  match CommandLine.read args with
  | .run archive command => do
    match ← (inspect archive command).outcome with
    | .ok result => return result
    | .error e => return failed e
  | .help topic => return printed (helpText topic)
  | .version => return printed version
  | .usage => return ⟨usageExit, [], usageMessage⟩

end InspectTool

end Stowage
