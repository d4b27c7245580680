import Stowage.Container.Archive
/-!
# Exporting an entry

The payload of one entry can be written to a file or shown. The file is made before the payload is
decoded, and keeps what has been decoded when that fails.
-/

namespace Stowage

open FileSystem (Call)

/-- Why a container cannot be inspected. -/
inductive InspectError where
  | cannotOpen (path : Path) (cause : ArchiveError)
  | noEntry (name : String) (archive : Path)
  | cannotCreate (path : Path) (cause : FileError)
  | archive (error : ArchiveError)
  deriving DecidableEq, Repr

namespace InspectError

/-- The texts of an error and of what caused it, the outermost first. -/
def messages : InspectError → List String
  | cannotOpen path cause => s!"cannot open archive {path.text}" :: cause.messages
  | noEntry name path => [s!"no entry named '{name}' in {path.text}"]
  | cannotCreate path cause => [s!"cannot create {path.text}", cause.message]
  | archive error => error.messages

/-- An error on one line. -/
def message (e : InspectError) : String := ": ".intercalate e.messages

end InspectError

namespace Archive

/-- The entry with a name. -/
def entryNamed (a : Archive) (name : String) : Except InspectError Record :=
  match a.find? name with
  | some r => .ok r
  | none => .error (.noEntry name a.path)

/-- The result of a decoding, with faults seen as errors of an inspection. -/
def decoded (d : Decoding) : Except InspectError Nat :=
  d.result.mapError fun fault => .archive (.plain fault)

variable [Zlib.Inflater]

/-- Writes the payload of the entry with a name to a file and returns its length. -/
def exportTo (a : Archive) (name : String) (output : Path) : Call InspectError Nat := do
  let r ← .askResult fun _ => a.entryNamed name
  let inode ← (FileSystem.createFile output Mode.file).withError
    (.cannotCreate output)
  -- the file is there by now, whatever becomes of the payload
  let decoding ← a.stream r
  FileSystem.append inode decoding.output
  .askResult fun _ => decoded decoding

/-- The payload of the entry with a name. -/
def showEntry (a : Archive) (name : String) : Call InspectError Bytes := do
  let r ← .askResult fun _ => a.entryNamed name
  let decoding ← a.stream r
  let _ ← .askResult fun _ => decoded decoding
  return decoding.output

end Archive

end Stowage
