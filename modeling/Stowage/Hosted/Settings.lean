import Stowage.Hosted.Options
import Stowage.Path.Basic
/-!
# Start settings

Everything that a runtime has to know at its start, whatever its version.
-/

namespace Stowage

/-- What a runtime has to know at its start. -/
structure StartSettings where
  /-- The program that hosts the runtime. -/
  programName : Path
  home : Path
  searchPaths : List Path
  /-- The command line, with the name of the program first. -/
  argv : List String
  options : RuntimeOptions
  deriving DecidableEq, Repr, Inhabited

namespace StartSettings

/-- The places below a home directory where modules are looked for, before the directory
itself. -/
def searchNames : List String := ["base_library.zip", "lib-dynload"]

/-- Where modules are looked for, in order. -/
def searchPathsOf (home : Path) : List Path :=
  searchNames.map (fun name => home.join ⟨name⟩) ++ [home]

/-- The settings for a program with its home and its options. -/
def make (programName home : Path) (argv : List String) (options : RuntimeOptions) :
    StartSettings :=
  ⟨programName, home, searchPathsOf home, argv, options⟩

end StartSettings

/-- How the start of a runtime ends, unless it fails. -/
inductive StartOutcome where
  | running
  /-- The runtime asks to exit with this code. -/
  | exit (code : Int32)
  deriving DecidableEq, Repr

/-- The exit code after an error that nothing has handled. -/
def unhandledErrorExit : Int32 := 1

end Stowage
