import Stowage.Container.Contents
import Stowage.Container.Cookie
import Stowage.Container.Payload
import Stowage.Container.Scan
import Stowage.Files.Call
/-!
# Archives

An archive is a container that has been opened. The container ends where the last cookie of its
file ends; what follows the cookie and what precedes the container may be anything. The table of
contents is read and checked once; payloads are read on demand from the open file, so that they
are found even when the file has lost its name.
-/

namespace Stowage

/-- A container that has been opened. -/
structure Archive where
  path : Path
  file : Handle
  fileLength : Nat
  /-- Where the container starts in its file. -/
  baseOffset : Nat
  cookie : Cookie
  /-- The table of contents. -/
  table : Bytes
  /-- Whether some entry has to be on disk before the runtime starts. -/
  needsExtraction : Bool
  deriving Repr, Inhabited

namespace Archive

open FileSystem (Call)

/-- Reports a fault that is about no entry in particular. -/
def refuse {α : Type} (fault : ArchiveFault) : Call ArchiveError α :=
  throw (.plain fault)

/-- A result whose faults are about no entry in particular. -/
def accept {α : Type} (result : Except ArchiveFault α) : Call ArchiveError α :=
  .askResult fun _ => result.mapError .plain

/-- The position of the last occurrence of a pattern in an open file. -/
def findLast (pattern : Bytes) (file : Handle) (fileLength : Nat) :
    Call FileError (Option Nat) := do
  if ← .ask (·.isOpenDirectory file) then FileSystem.fail .isDirectory
  .askResult fun fs => Scan.lastOccurrence (fs.contentOf file) fileLength pattern

/-- Where a container starts and where its table of contents starts, from the position of its
cookie. The table has to end before the cookie. -/
def layOut (position : Nat) (cookie : Cookie) : Except ArchiveFault (Nat × Nat) :=
  let cookieEnd := position + Cookie.size
  let length := cookie.containerLength.toNat
  if cookieEnd < length then .error (.malformed (.containerTooLong length cookieEnd))
  else
    let base := cookieEnd - length
    let start := base + cookie.contentsOffset.toNat
    let stop := start + cookie.contentsLength.toNat
    if position < stop then .error (.truncated (.contentsOverlapCookie start stop position))
    else .ok (base, start)

/-- Whether some record of a table describes an entry that has to be on disk; an error if some
record breaks the format. -/
def checkTable (table : Bytes) : Except ArchiveFault Bool :=
  ((Contents.checked table).map fun rs => rs.any (·.kind.isExtractable)).mapError .malformed

/-- Reads the container whose cookie starts at a position of an open file. -/
def loadAt (path : Path) (file : Handle) (fileLength position : Nat) :
    Call ArchiveError Archive := do
  if fileLength < position + Cookie.size then
    refuse (.truncated (.cookieBeyondFile position fileLength))
  FileSystem.seek file position
  let block ← FileSystem.readExact file Cookie.size |>.withError .ofFile
  let cookie ← accept (Cookie.parse block)
  let (baseOffset, start) ← accept (layOut position cookie)
  FileSystem.seek file start
  let table ← FileSystem.readExact file cookie.contentsLength.toNat |>.withError .ofFile
  let needsExtraction ← accept (checkTable table)
  return { path, file, fileLength, baseOffset, cookie, table, needsExtraction }

/-- Opens a container. -/
def load (path : Path) : Call ArchiveError Archive := do
  let file ← (FileSystem.openFile path).withError fun e => .plain (.cannotOpen path e)
  let fileLength ← FileSystem.lengthOf file
  if fileLength < Cookie.size then refuse (.noCookie path)
  match ← findLast Cookie.magic file fileLength |>.withError .ofFile with
  | none => refuse (.noCookie path)
  | some position => loadAt path file fileLength position

/-- The records of an archive in stored order, up to the first that breaks the format. -/
def entries (a : Archive) : List (Except Malformation Record) :=
  Contents.records a.table

/-- The records of an archive in stored order, without errors. -/
def records (a : Archive) : List Record :=
  Contents.sound a.entries

/-- The first entry with the given name. -/
def find? (a : Archive) (name : String) : Option Record :=
  a.records.find? (·.name = name)

/-- The options for the runtime, in stored order. -/
def runtimeOptions (a : Archive) : List String :=
  (a.records.filter (·.kind = .runtimeOption)).map (·.name)

/-- Where the payload of an entry starts in the file. -/
def payloadStart (a : Archive) (r : Record) : Nat := a.baseOffset + r.offset.toNat

/-- Where the payload of an entry ends in the file. -/
def payloadStop (a : Archive) (r : Record) : Nat := a.payloadStart r + r.storedLength.toNat

variable [Zlib.Inflater]

/-- What the payload of an entry decodes to, given the bytes of the file from its start on. -/
def decodeFrom (r : Record) (source : Bytes) : Decoding :=
  if r.isCompressed then
    Payload.inflate Zlib.Inflater.decoder source r.storedLength.toNat r.fullLength.toNat
  else Payload.copyStored source r.storedLength.toNat

/-- Decodes the payload of an entry from the open file. Where the file was read before does not
matter. -/
def stream {ε : Type} (a : Archive) (r : Record) : Call ε Decoding := do
  if a.fileLength < a.payloadStop r then
    return .failed (.truncated
      (.payloadBeyondFile (a.payloadStart r) (a.payloadStop r) a.fileLength))
  let decoding ← .ask fun fs =>
    decodeFrom r ((fs.contentOf a.file).drop (a.payloadStart r))
  -- reading leaves the position behind the last byte that was read
  FileSystem.seek a.file (a.payloadStart r + decoding.read)
  return decoding

/-- The decoded payload of an entry. -/
def payload (a : Archive) (r : Record) : Call ArchiveError Bytes := do
  let decoding ← a.stream r
  match decoding.result with
  | .ok _ => return decoding.output
  | .error fault => throw ((ArchiveError.plain fault).inEntry r.name)

end Archive

end Stowage
