import Stowage.Files.Walk
import Stowage.Path.Contained
/-!
# Where a path lands

A path inside a directory may leave it through a symbolic link, and a path that does not exist yet
cannot be looked up. `resolveUnder` follows the part of a path that exists and continues lexically
with the part that is missing. The answer is a place inside the given directory or nothing.

The directory has to be given by its canonical path.
-/

namespace Stowage.FileSystem

/-- Looks for the first path of a sequence that exists, each one followed by its parent, and
continues from there with the components cut off so far. A link that leads nowhere hides where the
path would go, so it is refused. -/
def landing (fs : FileSystem) (root : Path) :
    List Path → List Component → Except FileError (Option Path)
  | [], _ => .ok none
  | p :: outer, missing =>
    match fs.canonicalize p with
    | .ok base => .ok <| match Path.reduce missing with
      | some names =>
        let landed := base.join (Path.ofNames names.reverse)
        if landed.startsWith root then some landed else none
      | none => none
    | .error (.os .notFound) =>
      -- a link is there, but what it leads to is not
      if fs.isPresent p then .ok none
      else match p.lastComponent? with
        | some c => landing fs root outer (c :: missing)
        | none => .ok none
    | .error e => .error e

/-- Where a path lands, provided that this is inside `root`. -/
def resolveUnder (fs : FileSystem) (root p : Path) : Except FileError (Option Path) :=
  fs.landing root p.ancestors []

/-- Whether a link with the given target would lead to a place inside `root`. An absolute target
never does. -/
def linkStaysUnder (fs : FileSystem) (root link target : Path) : Except FileError Bool :=
  if target.isAbsolute then .ok false
  else (fs.resolveUnder root ((link.parent?.getD .empty).join target)).map Option.isSome

end Stowage.FileSystem
