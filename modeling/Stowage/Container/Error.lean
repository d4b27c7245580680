import Stowage.Files.Basic
import Stowage.Text.Quoted
/-!
# What can be wrong with a container

The faults are kept as causes with the numbers that belong to them; their wording is in `message`.
An error says besides which entry it is about, if it is about one. It can be about one entry only.
-/

namespace Stowage

/-- Why a container or a payload is too short. -/
inductive Truncation where
  | payloadEndsEarly
  | payloadBeyondFile (start stop fileLength : Nat)
  | cookieBeyondFile (position fileLength : Nat)
  | contentsOverlapCookie (start stop position : Nat)
  deriving DecidableEq, Repr

namespace Truncation

/-- The text that reports what is too short. -/
def message : Truncation → String
  | payloadEndsEarly => "entry payload ends early"
  | payloadBeyondFile start stop fileLength =>
    s!"payload [{start}..{stop}) beyond end of file ({fileLength} bytes)"
  | cookieBeyondFile position fileLength =>
    s!"cookie at {position} extends past end of file ({fileLength} bytes)"
  | contentsOverlapCookie start stop position =>
    s!"TOC [{start}..{stop}) overlaps the cookie at {position}"

end Truncation

/-- Which rule of the format is broken. -/
inductive Malformation where
  | wrongMagic
  | libraryNameNotText
  | containerTooLong (length position : Nat)
  | recordCut (position left : Nat)
  | recordTooShort (position length : Nat)
  | recordOverrun (position length : Nat)
  | recordNameNotText (position : Nat)
  | linkTargetNotText
  deriving DecidableEq, Repr

namespace Malformation

/-- The text that reports which rule is broken. -/
def message : Malformation → String
  | wrongMagic => "cookie magic mismatch"
  | libraryNameNotText => "runtime library name is not valid UTF-8"
  | containerTooLong length position =>
    s!"declared container length {length} exceeds file position {position}"
  | recordCut position left => s!"TOC record at {position} is truncated ({left} bytes left)"
  | recordTooShort position length =>
    s!"TOC record at {position} declares invalid length {length}"
  | recordOverrun position length =>
    s!"TOC record at {position} (length {length}) runs past the end of the TOC"
  | recordNameNotText position => s!"TOC record at {position} has a non UTF-8 name"
  | linkTargetNotText => "symlink target is not valid UTF-8"

end Malformation

/-- Why a compressed payload cannot be decoded. -/
inductive InflateFault where
  | noData
  | exhausted
  | corrupt
  | tooLong (declared : Nat)
  | wrongLength (actual declared : Nat)
  | stalled
  deriving DecidableEq, Repr

namespace InflateFault

/-- The text that reports why decoding fails. -/
def message : InflateFault → String
  | noData => "entry is flagged compressed but has no data"
  | exhausted => "input exhausted before end of stream"
  | corrupt => "deflate decompression error"
  | tooLong declared => s!"inflated past the declared {declared} bytes"
  | wrongLength actual declared => s!"inflated {actual} bytes, expected {declared}"
  | stalled => "inflate made no progress"

end InflateFault

/-- Why a container cannot be read or an entry cannot be extracted. -/
inductive ArchiveFault where
  | cannotOpen (path : Path) (cause : FileError)
  | noCookie (path : Path)
  | truncated (what : Truncation)
  | malformed (what : Malformation)
  | io (cause : FileError)
  | inflate (what : InflateFault)
  | wouldOverwrite (path : Path)
  | unsafeName (name : String)
  | notExtractable (letter : Char)
  deriving DecidableEq, Repr

namespace ArchiveFault

/-- The text that reports a fault. -/
def message : ArchiveFault → String
  | cannotOpen path cause => s!"cannot open {path.text}: {cause.message}"
  | noCookie path => s!"no archive cookie found in {path.text}"
  | truncated what => s!"archive truncated: {what.message}"
  | malformed what => s!"malformed archive: {what.message}"
  | io cause => s!"I/O error: {cause.message}"
  | inflate what => s!"decompression failed: {what.message}"
  | wouldOverwrite path => s!"refusing to overwrite existing file {path.text}"
  | unsafeName name => s!"name escapes the extraction directory: {name}"
  | notExtractable letter =>
    s!"entry type '{letter}' cannot be extracted to the filesystem"

/-- The error of the file system behind a fault. -/
def fileError? : ArchiveFault → Option FileError
  | cannotOpen _ cause => some cause
  | io cause => some cause
  | _ => none

/-- The texts of a fault and of what caused it, the outermost first. -/
def messages (fault : ArchiveFault) : List String :=
  fault.message :: (fault.fileError?.map FileError.message).toList

end ArchiveFault

/-- A fault, and the name of the entry that it is about. -/
structure ArchiveError where
  entry : Option String
  fault : ArchiveFault
  deriving DecidableEq, Repr

namespace ArchiveError

/-- A fault that is about no entry in particular. -/
def plain (fault : ArchiveFault) : ArchiveError := ⟨none, fault⟩

/-- The error with the name of an entry attached, unless it has one. -/
def inEntry (name : String) (e : ArchiveError) : ArchiveError :=
  ⟨some (e.entry.getD name), e.fault⟩

/-- An error of the file system as an error of a container. -/
def ofFile (cause : FileError) : ArchiveError := plain (.io cause)

/-- The text that reports an error. -/
def message (e : ArchiveError) : String :=
  match e.entry with
  | some name => s!"entry '{name}': {e.fault.message}"
  | none => e.fault.message

/-- The texts of an error and of what caused it, the outermost first. -/
def messages (e : ArchiveError) : List String :=
  match e.entry with
  | some _ => e.message :: e.fault.messages
  | none => e.fault.messages

end ArchiveError

end Stowage
