import Stowage.Environment.Basic
import Stowage.Files.Walk
import Stowage.Launch.Error
/-!
# Finding a program by its name

A name with several components is a path. A bare name is looked for in the directories of the
search path, where a program is a regular file that may be executed.
-/

namespace Stowage.Executable

/-- A directory of the search path, with the home directory in place of a leading `~`. -/
def expandEntry (env : Environment) (dir : Path) : Path :=
  match dir.components with
  | .name "~" :: rest => rest.foldl (fun p c => p.join ⟨c.text⟩) env.home
  | _ => dir

/-- The directories of the search path. -/
def searchDirs (env : Environment) (value : String) : List Path :=
  ((value.toList.splitOn ':').map Path.ofChars).map (expandEntry env)

/-- The first program of a bare name on the search path. -/
def search (fs : FileSystem) (env : Environment) (name : String) : Except SearchFault Path :=
  match env.get? "PATH" with
  | none => .error .noSearchPath
  | some value =>
    match ((searchDirs env value).map (·.join ⟨name⟩)).find? fs.isExecutable with
    | some path => .ok path
    | none => .error .notFound

/-- The canonical path of the program that has been called by a name. -/
def ofInvocation (fs : FileSystem) (env : Environment) (name : String) :
    Except LaunchError Path := do
  let found ←
    if 1 < (Path.mk name).components.length then .ok ⟨name⟩
    else (search fs env name).mapError fun cause => .executable (.notOnPath name cause)
  (fs.canonicalize found).mapError fun cause => .executable (.unresolved found cause)

end Stowage.Executable
