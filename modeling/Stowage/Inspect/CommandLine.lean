import Stowage.Path.Basic
import Stowage.Text.Blank
/-!
# The command line of the inspection tool

The command line names a container and then a command: `list`, `extract` or `info`. The name of a
command is recognised even where the container should be named. Options may stand before or after
the arguments of their command; after `--` everything is an argument.

The arguments are read from left to right, and what is found first counts, be it a request for help
or a fault. What follows the letter of a short option in one argument is its value, or is not looked
at if the option takes none.
-/

namespace Stowage

/-- What the inspection tool is asked to do. -/
inductive InspectCommand where
  | list (asJson : Bool)
  | extract (name : String) (output : Option Path)
  | info (asJson : Bool)
  deriving DecidableEq, Repr

/-- The topics on which the tool has help. -/
inductive HelpTopic where
  | tool
  | list
  | extract
  | info
  | help
  deriving DecidableEq, Repr

/-- What a command line asks for. -/
inductive InspectRequest where
  | run (archive : Path) (command : InspectCommand)
  | help (topic : HelpTopic)
  | version
  /-- The command line breaks the rules. -/
  | usage
  deriving DecidableEq, Repr

namespace CommandLine

/-- Whether an argument is an option. A single dash is not. -/
def isOption (arg : String) : Bool := arg.startsWith "-" && arg ≠ "-"

/-- Whether an argument is the given option, by its word or by its letter. -/
def isSwitch (word : String) (letter : Char) (arg : String) : Bool :=
  arg = "--" ++ word || ['-', letter].isPrefixOf arg.toList

/-- Whether an argument asks for help. -/
def asksHelp : String → Bool := isSwitch "help" 'h'

/-- The arguments of `list` and `info`: at most one switch. -/
def readSwitch (topic : HelpTopic) (asJson : Bool) (make : Bool → InspectRequest) :
    List String → InspectRequest
  | [] => make asJson
  | "--json" :: rest => if asJson then .usage else readSwitch topic true make rest
  | ["--"] => make asJson
  | arg :: _ => if asksHelp arg then .help topic else .usage

/-- An option with a value that gives an output file in one argument. -/
def outputInside? (arg : String) : Option String :=
  match Text.afterLead? "--output=" arg with
  | some value => some value
  | none =>
    if arg.startsWith "--" then none
    else (Text.afterLead? "-o" arg).map fun value => (Text.afterLead? "=" value).getD value

/-- The arguments of `extract`: one name, at most one output file. -/
def readExtract (name output : Option String) (make : String → Option String → InspectRequest) :
    List String → InspectRequest
  | [] => finish name
  | "--" :: rest => match name, rest with
    | _, [] => finish name
    | none, [arg] => finish (some arg)
    | _, _ => .usage
  | arg :: rest =>
    if asksHelp arg then .help .extract
    else if arg = "-o" || arg = "--output" then
      match rest with
      | value :: rest =>
        if output.isSome || value = "" || isOption value then .usage
        else readExtract name (some value) make rest
      | [] => .usage
    else if isOption arg then
      match outputInside? arg with
      | some value =>
        if output.isSome || value = "" then .usage else readExtract name (some value) make rest
      | none => .usage
    else if name.isSome then .usage
    else readExtract (some arg) output make rest
where
  /-- The request, if the name is there. -/
  finish : Option String → InspectRequest
    | some name => make name output
    | none => .usage

/-- The topics by their names. -/
def topics : List (String × HelpTopic) :=
  [("list", .list), ("extract", .extract), ("info", .info), ("help", .help)]

/-- The request for help on a command, or on the tool if none is named. -/
def readHelp : List String → InspectRequest
  | [] => .help .tool
  | [name] => match topics.lookup name with
    | some topic => .help topic
    | none => .usage
  | _ => .usage

/-- The request with a container, which must be named, and not by the empty text. -/
def onArchive (archive : Option String) (command : InspectCommand) : InspectRequest :=
  match archive with
  | some path => if path = "" then .usage else .run ⟨path⟩ command
  | none => .usage

/-- The arguments before and after the name of the command. A container with an empty name is a
fault only when something else than a command follows it, or in the end. -/
def readTop (archive : Option String) : List String → InspectRequest
  | [] => .usage
  -- the names of commands come first, so a container cannot be called by one of them
  | "help" :: rest => readHelp rest
  | "list" :: rest => readSwitch .list false (fun json => onArchive archive (.list json)) rest
  | "info" :: rest => readSwitch .info false (fun json => onArchive archive (.info json)) rest
  | "extract" :: rest =>
    readExtract none none
      (fun name output => onArchive archive (.extract name (output.map Path.mk))) rest
  | arg :: rest =>
    if archive = some "" then .usage
    else if asksHelp arg then .help .tool
    else if isSwitch "version" 'V' arg then .version
    else if isOption arg || archive.isSome then .usage
    else readTop (some arg) rest

/-- What a command line asks for. -/
def read (args : List String) : InspectRequest := readTop none args

end CommandLine

end Stowage
