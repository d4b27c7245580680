import Stowage.Environment.Basic
import Stowage.Launch.Error
/-!
# The library search path

The dynamic loader looks for libraries in the directories that a variable lists. A home directory
is made visible by putting it first; the value from before the first change is kept in a second
variable.
-/

namespace Stowage.LibraryPath

/-- The variable that lists the directories. -/
def pathVariable : String := "LD_LIBRARY_PATH"

/-- The variable that keeps the value from before the first change. -/
def keptVariable : String := "LD_LIBRARY_PATH_ORIG"

/-- The entries of a list of paths. Every colon separates two entries. -/
def entries (value : String) : List Path :=
  (value.toList.splitOn ':').map Path.ofChars

/-- Some paths as one list. A path that holds a colon cannot be an entry. -/
def join (paths : List Path) : Except FileError String :=
  if paths.any (·.chars.contains ':') then .error .separatorInEntry
  else .ok (String.ofList ([':'].intercalate (paths.map Path.chars)))

/-- Whether a home directory is among the entries of a value. -/
def containsHome (home : Path) (value : Option String) : Bool :=
  match value with
  | some s => (entries s).any (·.same home)
  | none => false

/-- The list of a home directory and the entries of a value that are not empty. -/
def withHome (home : Path) (value : Option String) : Except FileError String :=
  let former := match value with
    | some s => (entries s).filter (·.text ≠ "")
    | none => []
  join (home :: former)

/-- The environment in which the present value is kept, unless one is kept already. -/
def keepFirst (env : Environment) : Environment :=
  match env.get? pathVariable, env.get? keptVariable with
  | some value, none => env.set keptVariable value
  | _, _ => env

/-- How making a home directory visible ends. -/
inductive Exposure where
  /-- The home is visible; something had to change for that or not. -/
  | ok (changed : Bool)
  | error (cause : LaunchError)
  /-- The call does not return. -/
  | panicked (message : String)
  deriving DecidableEq, Repr

namespace Exposure

/-- What a launch sees of it. It is not told of a panic other than by its cause. -/
def toExcept : Exposure → Except LaunchError Bool
  | ok changed => .ok changed
  | error cause => .error cause
  | panicked _ => .error (.io .nulInPath)

instance : Coe Exposure (Except LaunchError Bool) := ⟨toExcept⟩

/-- Whether the call has not returned. -/
def isPanic : Exposure → Bool
  | panicked _ => true
  | _ => false

end Exposure

/-- The text with which the search path is refused as the value of a variable. -/
def unsettable (value : String) : String :=
  s!"failed to set environment variable `{Text.quote pathVariable}` to `{Text.quote value}`: " ++
    FileError.nulInPath.message

/-- Makes a home directory visible to the loader. Says whether anything had to change, and gives
the environment that is left, even after an error or a panic. -/
def expose (home : Path) (env : Environment) : Exposure × Environment :=
  if containsHome home (env.get? pathVariable) then (.ok false, env)
  else
    -- from here on the kept value stays, even if nothing else changes
    let kept := keepFirst env
    match withHome home (env.get? pathVariable) with
    | .ok value =>
      -- what a variable holds has no NUL in it, so if the new value has one it is the home's
      if home.chars.contains '\x00' then (.panicked (unsettable value), kept)
      else (.ok true, kept.set pathVariable value)
    | .error e => (.error (.io e), kept)

end Stowage.LibraryPath
