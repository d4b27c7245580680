import Stowage.Hosted.Error
/-!
# What can go wrong with a launch
-/

namespace Stowage

/-- Why a program cannot be found by its bare name. -/
inductive SearchFault where
  | noSearchPath
  | notFound
  deriving DecidableEq, Repr

namespace SearchFault

/-- The text that reports why a program cannot be found. -/
def message : SearchFault → String
  | noSearchPath => "no path to search and provided name is not an absolute path"
  | notFound => "cannot find binary path"

end SearchFault

/-- Why the running executable cannot be determined. -/
inductive ExecutableFault where
  | notOnPath (name : String) (cause : SearchFault)
  | unresolved (path : Path) (cause : FileError)
  /-- The system does not tell which program is running, and there is no name to go by. -/
  | untold (cause : FileError)
  /-- A collaborator does not do what it is asked for. -/
  | refused (what : String)
  deriving DecidableEq, Repr

namespace ExecutableFault

/-- The text that reports why the executable is unknown. -/
def message : ExecutableFault → String
  | notOnPath name cause => s!"{name} not found on PATH: {cause.message}"
  | unresolved path cause => s!"{path.text}: {cause.message}"
  | untold cause => cause.message
  | refused what => s!"{what} refused"

end ExecutableFault

/-- Why a launch fails. -/
inductive LaunchError where
  | executable (fault : ExecutableFault)
  | archiveMissing (program : Path) (cause : ArchiveError)
  | sideLoadRefused (path : Path)
  | archive (error : ArchiveError)
  | extractionDir (parent : Path) (cause : FileError)
  | invalidReference (text : String)
  | dependencyNotFound (location member : String)
  | spawn (program : Path) (cause : FileError)
  | runtime (error : RuntimeError)
  | io (cause : FileError)
  deriving DecidableEq, Repr

namespace LaunchError

/-- The text that reports an error. -/
def message : LaunchError → String
  | executable fault =>
    s!"cannot determine the path of the running executable: {fault.message}"
  | archiveMissing program _ =>
    s!"no archive embedded in {program.text} and no side-load archive next to it"
  | sideLoadRefused path =>
    s!"side-load archive {path.text} found, but the executable does not permit side-loading"
  | archive error => error.message
  | extractionDir parent cause =>
    s!"cannot create extraction directory under {parent.text}: {cause.message}"
  | invalidReference text =>
    s!"invalid dependency reference {Text.quote text}: expected location:member"
  | dependencyNotFound location member => s!"dependency {member} not found via {location}"
  | spawn program cause => s!"failed to start {program.text}: {cause.message}"
  | runtime error => error.message
  | io cause => s!"I/O error: {cause.message}"

/-- The texts of an error and of what caused it, the outermost first. -/
def messages : LaunchError → List String
  | archive error => error.messages
  | runtime error => error.messages
  | e@(archiveMissing _ cause) => e.message :: cause.messages
  | e@(extractionDir _ cause) => [e.message, cause.message]
  | e@(spawn _ cause) => [e.message, cause.message]
  | e@(io cause) => [e.message, cause.message]
  | e => [e.message]

end LaunchError

end Stowage
