import Stowage.Container.Archive
import Stowage.Environment.Handshake
import Stowage.Files.Containment
/-!
# Unpacking entries

An entry is unpacked below an output directory, which is made if it is missing. The place is given
by the name of the entry; a name that leaves the directory is refused, and so is one whose parent
leads outside through a link. What exists at the place is replaced, or left alone under the strict
policy.

A file that cannot be written in full is removed. A link is made only if following it from where it
stands leads to a place inside the directory.
-/

namespace Stowage

open FileSystem (Call)

/-- A call on the file system whose errors are about no entry in particular. -/
def FileSystem.Call.plainly {α : Type} (c : Call FileError α) : Call ArchiveError α :=
  c.withError .ofFile

namespace Archive

/-- The permissions of an unpacked file: programs may be executed, and only by their owner. -/
def unpackedMode (kind : EntryKind) : Nat :=
  if kind = .binary then 0o700 else 0o600

/-- Makes sure that the parent of a place exists and lies inside `root`. -/
def prepareParent (root target : Path) (name : String) : Call ArchiveError Unit := do
  match target.parent? with
  | none => return
  | some parent =>
    if (← (Call.askResult (·.resolveUnder root parent)).plainly).isNone then
      refuse (.unsafeName name)
    (FileSystem.makeDirAll parent).plainly

/-- Takes away what exists at a place, if the policy allows it. -/
def clearTarget (target : Path) (policy : UnpackPolicy) : Call ArchiveError Unit := do
  if ← .ask (·.isPresent target) then
    if policy.strict then refuse (.wouldOverwrite target)
    (FileSystem.removeFile target).plainly

variable [Zlib.Inflater]

/-- Writes the payload of an entry to a new file, which is removed again if that fails. -/
def writeFile (a : Archive) (r : Record) (target : Path) : Call ArchiveError Unit := do
  let inode ← (FileSystem.createFile target Mode.file).plainly
  let decoding ← a.stream r
  FileSystem.append inode decoding.output
  match decoding.result with
  | .error fault =>
    -- the fault is reported whether or not the removal succeeds
    let _ ← (FileSystem.removeFile target).outcome
    refuse fault
  | .ok _ => (FileSystem.setMode target (unpackedMode r.kind)).plainly

/-- A text without the zero characters at its end. -/
def trimZeros (s : String) : String :=
  String.ofList (s.toList.reverse.dropWhile (· = '\x00')).reverse

/-- Makes the link that an entry describes, if it stays inside `root`. -/
def writeLink (a : Archive) (r : Record) (root link : Path) : Call ArchiveError Unit := do
  let bytes ← a.payload r
  let some text := Text.decode? bytes | refuse (.malformed .linkTargetNotText)
  let target : Path := ⟨trimZeros text⟩
  if ← (Call.askResult (·.linkStaysUnder root link target)).plainly then
    (FileSystem.makeLink target.text link).plainly
  else refuse (.unsafeName s!"{r.name} -> {target.text}")

/-- Unpacks an entry below a directory and returns its path. -/
def place (a : Archive) (r : Record) (dir : Path) (policy : UnpackPolicy) :
    Call ArchiveError Path := do
  if !r.kind.isFileLike then refuse (.notExtractable r.kind.letter)
  let some target := dir.containedJoin r.name | refuse (.unsafeName r.name)
  (FileSystem.makeDirAll dir).plainly
  let root ← (Call.askResult (·.canonicalize dir)).plainly
  prepareParent root target r.name
  clearTarget target policy
  if r.kind = .symlink then a.writeLink r root target
  else a.writeFile r target
  return target

/-- Unpacks an entry below a directory and returns its path. Every error names the entry. -/
def unpack (a : Archive) (r : Record) (dir : Path) (policy : UnpackPolicy) :
    Call ArchiveError Path :=
  (a.place r dir policy).withError (.inEntry r.name)

end Archive

end Stowage
