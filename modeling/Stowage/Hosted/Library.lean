import Stowage.Files.Call
import Stowage.Hosted.EntryPoint
/-!
# Runtime libraries

A runtime lives in a library, a file that says which names it exports. The first file with the
right name in a sequence of directories is taken. A runtime can be driven only if its library
exports every entry point that is needed; of the others it is noted whether they are there.
-/

namespace Stowage

namespace LibraryImage

/-- The line with which a library starts. -/
def heading : String := "runtime library"

/-- The bytes of a library that exports the given names. -/
def encode (exports : List String) : Bytes :=
  Text.encode ("\n".intercalate (heading :: exports))

/-- The names that a library exports; nothing if the bytes are no library. -/
def decode? (bytes : Bytes) : Option (List String) := do
  let text ← Text.decode? bytes
  match (text.toList.splitOn '\n').map String.ofList with
  | first :: exports => if first = heading then some exports else none
  | [] => none

end LibraryImage

/-- A library that has been loaded. -/
structure RuntimeLibrary where
  path : Path
  exports : List String
  deriving DecidableEq, Repr, Inhabited

namespace RuntimeLibrary

open FileSystem (Call)

/-- Loads the first file of the given name in a sequence of directories. -/
def load (dirs : List Path) (name : String) : Call RuntimeError RuntimeLibrary := do
  let candidates := dirs.map (·.join ⟨name⟩)
  let some path ← .ask fun fs => candidates.find? fs.isFile
    | throw (.libraryNotFound name dirs)
  -- a bare name is not loaded from the working directory
  if !path.chars.contains '/' then throw (.libraryLoad path)
  match (← .ask (·.content path)).toOption.bind LibraryImage.decode? with
  | some exports => return ⟨path, exports⟩
  | none => throw (.libraryLoad path)

/-- The first name that is needed and not exported. -/
def missing? (l : RuntimeLibrary) : Option String :=
  requiredSymbols.find? (!l.exports.contains ·)

end RuntimeLibrary

end Stowage
