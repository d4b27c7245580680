import Stowage.Container.Archive
import Stowage.Launch.Error
/-!
# Finding the container of a program

A program carries its container at its end. A program without one may use the container beside it,
but only if it carries the mark that allows this.
-/

namespace Stowage.Locate

open FileSystem (Call)

/-- The path of the container beside a program. -/
def sideLoadPath (executable : Path) : Path := executable.withExtension "pkg"

/-- Whether a program may use the container beside it. -/
def allowsSideLoad (executable : Path) : Call LaunchError Bool := do
  let file ← (FileSystem.openFile executable).withError .io
  let length ← FileSystem.lengthOf file
  let found ← (Archive.findLast Cookie.sideLoadMarker file length).withError fun e =>
    .archive (.ofFile e)
  return found.isSome

/-- Opens the container of a program. -/
def openArchive (executable : Path) : Call LaunchError Archive := do
  match ← (Archive.load executable).outcome with
  | .ok a => return a
  | .error e => match e.fault with
    | .noCookie _ =>
      let beside := sideLoadPath executable
      if !(← .ask (·.isFile beside)) then throw (.archiveMissing executable e)
      if !(← allowsSideLoad executable) then throw (.sideLoadRefused beside)
      (Archive.load beside).withError .archive
    | _ => throw (.archive e)

end Stowage.Locate
