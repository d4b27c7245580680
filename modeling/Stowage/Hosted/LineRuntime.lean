import Stowage.Hosted.Error
import Stowage.Hosted.Settings
/-!
# A runtime that reads lines

The programs of this runtime are lines: `name = value` binds a name, `expect name value` fails
unless the name is bound to the value, and `raise` fails. Blank lines and lines that start with `#`
mean nothing; any other line is an error. Modules and scripts share their names, so the order in
which they run can be seen. A journal keeps what has happened.
-/

namespace Stowage

/-- What a line runtime has been asked for. -/
inductive JournalEvent where
  | start
  | module (name : String)
  | bundle (location : String)
  | script (name : String)
  | finalize
  deriving DecidableEq, Repr

namespace JournalEvent

/-- How an event is written. -/
def text : JournalEvent → String
  | start => "start"
  | module name => s!"module:{name}"
  | bundle location => s!"bundle:{location}"
  | script name => s!"script:{name}"
  | finalize => "finalize"

end JournalEvent

/-- What a line runtime has seen. -/
structure Journal where
  events : List JournalEvent
  globals : List (String × String)
  searchPath : List String
  settings : Option StartSettings
  deriving Repr, Inhabited

/-- The state of a line runtime. -/
structure LineRuntime where
  journal : Journal
  /-- The code with which the start asks to exit. -/
  exitOnStart : Option Int32
  isStarted : Bool
  deriving Repr, Inhabited

namespace LineRuntime

/-- A runtime that has not been started. -/
def fresh (exitOnStart : Option Int32) : LineRuntime := ⟨⟨[], [], [], none⟩, exitOnStart, false⟩

/-- The lines of a text without the blanks around them. -/
def trimmedLines (text : String) : List String :=
  (text.toList.splitOn '\n').map fun cs => String.ofList (Text.trimChars cs)

/-- Runs one line on the names that are bound; nothing if it fails. -/
def runLine (globals : List (String × String)) (line : String) :
    Option (List (String × String)) :=
  if line = "" || line.startsWith "#" then some globals
  else if line = "raise" || line.startsWith "raise " then none
  else match Text.afterLead? "expect " line with
    | some rest =>
      let (name, want) := (Text.splitOnce ' ' rest).getD (rest, "")
      if globals.lookup (Text.trim name) = some (Text.trim want) then some globals else none
    | none => (Text.splitOnce '=' line).map fun (name, value) =>
      (Text.trim name, Text.trim value) :: globals.filter (·.1 != Text.trim name)

/-- Runs lines until one fails. Returns the names that are bound and whether no line has failed. -/
def runLines (globals : List (String × String)) : List String → List (String × String) × Bool
  | [] => (globals, true)
  | line :: rest => match runLine globals line with
    | some globals => runLines globals rest
    | none => (globals, false)

/-- The runtime after one more event. -/
def note (event : JournalEvent) (r : LineRuntime) : LineRuntime :=
  { r with journal := { r.journal with events := r.journal.events ++ [event] } }

/-- Starts the runtime. -/
def start (settings : StartSettings) (r : LineRuntime) : StartOutcome × LineRuntime :=
  let r := r.note .start
  let r := { r with journal := { r.journal with settings := some settings } }
  match r.exitOnStart with
  | some code => (.exit code, r)
  | none => (.running, { r with isStarted := true })

/-- Runs the lines of a program. -/
def execute (event : JournalEvent) (error : RuntimeError) (program : Bytes) (r : LineRuntime) :
    Except RuntimeError Unit × LineRuntime :=
  if r.isStarted then
    let r := r.note event
    let (globals, succeeded) :=
      runLines r.journal.globals (trimmedLines (Text.decodeLossy program))
    (if succeeded then .ok () else .error error,
      { r with journal := { r.journal with globals } })
  else (.error .notStarted, r)

/-- Runs a module. -/
def runModule (name : String) (code : Bytes) (r : LineRuntime) :
    Except RuntimeError Unit × LineRuntime :=
  r.execute (.module name) (.moduleFailed name) code

/-- Runs a script. -/
def runScript (name : String) (source : Bytes) (r : LineRuntime) :
    Except RuntimeError Unit × LineRuntime :=
  r.execute (.script name) (.scriptFailed name) source

/-- Adds a place to the module search path. -/
def addCodeBundle (location : String) (r : LineRuntime) :
    Except RuntimeError Unit × LineRuntime :=
  if r.isStarted then
    let r := r.note (.bundle location)
    (.ok (), { r with journal :=
      { r.journal with searchPath := r.journal.searchPath ++ [location] } })
  else (.error .notStarted, r)

/-- Shuts the runtime down, if it has been started. -/
def finalize (r : LineRuntime) : LineRuntime :=
  if r.isStarted then { r with isStarted := false }.note .finalize else r

end LineRuntime

end Stowage
