import Stowage.Environment.Handshake
import Stowage.Files.Call
import Stowage.Launch.Error
/-!
# Sessions

A session is one run of the launcher: its command line, the program, its home, and the extraction
directory that it has made and has to remove.
-/

namespace Stowage

/-- One run of the launcher. -/
structure LaunchSession where
  /-- The command line, with the name of the program first. -/
  argv : List String
  executable : Path
  home : Path
  /-- An earlier process has extracted for this one. -/
  isChild : Bool
  /-- The extraction directory that this run has to remove. -/
  ownedDir : Option Path
  deriving DecidableEq, Repr, Inhabited

namespace LaunchSession

/-- A session that knows its command line only. -/
def ofArgv (argv : List String) : LaunchSession := ⟨argv, .empty, .empty, false, none⟩

/-- The directory of the program. -/
def executableDir (s : LaunchSession) : Path := s.executable.parent?.getD ⟨"."⟩

/-- The command line with which the program is called again. Where there is none, the path of the
program stands for its name. -/
def commandLine (s : LaunchSession) : List String :=
  if s.argv = [] then [s.executable.text] else s.argv

/-- The session after it has taken over an extraction directory. -/
def adopt (s : LaunchSession) (dir : Path) : LaunchSession := { s with ownedDir := some dir }

/-- How often the removal of the extraction directory is tried. -/
def removeAttempts : Nat := 5

/-- Whether an attempt to remove a directory has left none behind. A directory that is not there
counts as removed. -/
def isGone : Except FileError Unit → Bool
  | .ok () => true
  | .error (.os .notFound) => true
  | .error _ => false

/-- Removes a directory with all that is in it. After a failure it is tried again, up to the given
number of times. -/
def tryRemove (dir : Path) : (more : Nat) → FileSystem.Call Empty Bool
  | 0 => return isGone (← (FileSystem.removeTree dir).outcome)
  | more + 1 => do
    if isGone (← (FileSystem.removeTree dir).outcome) then return true
    tryRemove dir more

/-- Removes a directory with all that is in it, in at most the given number of attempts and at
least one. Says whether it is gone. -/
def removeDir (dir : Path) (attempts : Nat) : FileSystem.Call Empty Bool :=
  tryRemove dir (attempts - 1)

/-- Removes the extraction directory, if the session has one. -/
def cleanUp (s : LaunchSession) : FileSystem.Call Empty LaunchSession := do
  match s.ownedDir with
  | some dir =>
    let _ ← removeDir dir removeAttempts
    return { s with ownedDir := none }
  | none => return s

end LaunchSession

/-- How a child process has ended. -/
inductive ChildExit where
  | code (code : Int32)
  | signal (number : Int32)
  deriving DecidableEq, Repr

end Stowage
