import Stowage.Container.Error
/-!
# What can go wrong with the hosted runtime

Errors name their cause. A *status* is what the runtime itself reports about a step of its start.
-/

namespace Stowage

/-- What the runtime reports about a step of its start. -/
structure Status where
  /-- Zero for success, one for an error, two for a request to exit. -/
  type : Int32
  function : Option String
  message : Option String
  exitCode : Int32
  deriving DecidableEq, Repr

namespace Status

/-- The report of a step that has succeeded. -/
def success : Status := ⟨0, none, none, 0⟩

/-- Whether a step has succeeded. -/
def isOk (s : Status) : Bool := s.type = 0

/-- Whether the runtime asks to exit. -/
def isExit (s : Status) : Bool := s.type = 2

/-- The text of a report, or its type when the runtime gives no text. -/
def describe (s : Status) : String :=
  match s.function, s.message with
  | some function, some message => s!"{function}: {message}"
  | none, some message => message
  | some function, none => function
  | none, none => s!"status type {s.type.toInt}"

end Status

/-- Why a step of the configuration fails. -/
inductive ConfigFault where
  | refused (what : String) (status : Status)
  | undecodable (what text : String)
  deriving DecidableEq, Repr

namespace ConfigFault

/-- The text that reports why a step fails. -/
def message : ConfigFault → String
  | refused what status => s!"{what}: {status.describe}"
  | undecodable what text => s!"{what}: cannot decode {Text.quote text}"

end ConfigFault

/-- A call of the running runtime that must not fail. -/
inductive CallFault where
  | frozenMarker
  | homeMarker
  | noSearchPath
  | undecodableBundle (location : String)
  | bundleNotAdded (location : String)
  | noMainModule
  deriving DecidableEq, Repr

namespace CallFault

/-- The text that names the call. -/
def message : CallFault → String
  | frozenMarker => "sys.frozen"
  | homeMarker => "sys._bootpack_home"
  | noSearchPath => "sys.path is missing"
  | undecodableBundle location => s!"cannot decode {location}"
  | bundleNotAdded location => s!"cannot append {location} to sys.path"
  | noMainModule => "__main__ is unavailable"

end CallFault

/-- Why the hosted runtime cannot be loaded, started or driven. -/
inductive RuntimeError where
  | libraryNotFound (name : String) (searched : List Path)
  | libraryLoad (path : Path)
  | missingSymbol (symbol : String)
  | unsupportedVersion (version : UInt32)
  /-- A text holds the character that ends a text in a call. -/
  | nulInText (text : String)
  | preStart (status : Status)
  | configuration (fault : ConfigFault)
  | start (status : Status)
  | notStarted
  | moduleFailed (name : String)
  | scriptFailed (name : String)
  | callFailed (fault : CallFault)
  | archive (error : ArchiveError)
  deriving DecidableEq, Repr

namespace RuntimeError

/-- The text that reports an error. -/
def message : RuntimeError → String
  | libraryNotFound name searched =>
    s!"runtime library {name} not found in " ++ ", ".intercalate (searched.map Path.text)
  | libraryLoad path => s!"failed to load runtime library {path.text}"
  | missingSymbol symbol => s!"required symbol {symbol} missing from runtime library"
  | unsupportedVersion version =>
    s!"unsupported runtime version {version.toNat} (no configuration layout registered)"
  | nulInText text => s!"string contains an interior NUL byte: {Text.quote text}"
  | preStart status => s!"runtime pre-initialization failed: {status.describe}"
  | configuration fault => s!"runtime configuration failed: {fault.message}"
  | start status => s!"runtime initialization failed: {status.describe}"
  | notStarted => "runtime is not running"
  | moduleFailed name => s!"bootstrap module '{name}' raised an exception"
  | scriptFailed name => s!"script '{name}' raised an unhandled exception"
  | callFailed fault => s!"runtime call failed: {fault.message}"
  | archive error => error.message

/-- The texts of an error and of what caused it, the outermost first. -/
def messages : RuntimeError → List String
  | archive error => error.messages
  | e => [e.message]

end RuntimeError

end Stowage
