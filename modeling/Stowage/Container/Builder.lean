import Stowage.Container.Contents
import Stowage.Container.Cookie
/-!
# Building containers

A container is laid out as its payloads one after the other, the table of contents and the cookie.
Anything may stand before it.
-/

namespace Stowage

/-- An entry that is to be packed, with its payload as it will be stored. -/
structure PackedEntry where
  kind : EntryKind
  name : String
  stored : Bytes
  isCompressed : Bool
  /-- The length that the decoded payload is said to have. -/
  fullLength : Nat
  deriving DecidableEq, Repr, Inhabited

namespace PackedEntry

/-- An entry with the given payload, stored as it is. -/
def plain (kind : EntryKind) (name : String) (data : Bytes) : PackedEntry :=
  ⟨kind, name, data, false, data.length⟩

/-- An entry with the given payload, stored as the zlib stream that a compressor makes of it. -/
def compressed (compressor : Bytes → Bytes) (kind : EntryKind) (name : String) (data : Bytes) :
    PackedEntry :=
  ⟨kind, name, compressor data, true, data.length⟩

/-- An option for the runtime, which is all name. -/
def option (text : String) : PackedEntry := plain .runtimeOption text []

/-- The record of an entry whose payload starts at the given offset. -/
def record (e : PackedEntry) (offset : Nat) : Record where
  position := 0
  length := (Record.headerSize + Record.paddedLength (Text.encode e.name)).toUInt32
  offset := offset.toUInt32
  storedLength := e.stored.length.toUInt32
  fullLength := e.fullLength.toUInt32
  isCompressed := e.isCompressed
  kind := e.kind
  name := e.name

end PackedEntry

/-- What a container is made of. -/
structure Packing where
  runtimeVersion : UInt32
  runtimeLibrary : String
  entries : List PackedEntry
  deriving Repr

namespace Packing

/-- The version and the library of the runtime unless others are asked for. -/
def withDefaultRuntime (entries : List PackedEntry) : Packing :=
  ⟨311, "libpython3.11.so.1.0", entries⟩

/-- All payloads, one after the other. -/
def payloads (p : Packing) : Bytes :=
  p.entries.flatMap (·.stored)

/-- The records of entries whose payloads start at the given offset. -/
def recordsFrom (offset : Nat) : List PackedEntry → List Record
  | [] => []
  | e :: rest => e.record offset :: recordsFrom (offset + e.stored.length) rest

/-- The table of contents. -/
def table (p : Packing) : Bytes :=
  (recordsFrom 0 p.entries).flatMap Record.encode

/-- The cookie. -/
def cookie (p : Packing) : Cookie where
  containerLength := (p.payloads.length + p.table.length + Cookie.size).toUInt32
  contentsOffset := p.payloads.length.toUInt32
  contentsLength := p.table.length.toUInt32
  runtimeVersion := p.runtimeVersion
  runtimeLibrary := p.runtimeLibrary

/-- The bytes of the container. -/
def bytes (p : Packing) : Bytes :=
  p.payloads ++ p.table ++ p.cookie.encode

end Packing

end Stowage
