import Stowage.Container.Archive
import Stowage.Inspect.Json
import Stowage.Text.Number
/-!
# Listings

What can be said of a container without running it: its entries in stored order and the facts of
its cookie, as text for people and as JSON.
-/

namespace Stowage

/-- The facts about a container. -/
structure ArchiveFacts where
  path : Path
  baseOffset : Nat
  cookie : Cookie
  entryCount : Nat
  needsExtraction : Bool
  deriving DecidableEq, Repr

namespace Listing

/-- All entries of a container. -/
def entries (a : Archive) : Except ArchiveError (List Record) :=
  (Contents.checked a.table).mapError fun m => .plain (.malformed m)

/-- The facts about a container. -/
def facts (a : Archive) : Except ArchiveError ArchiveFacts :=
  (entries a).map fun rs => ⟨a.path, a.baseOffset, a.cookie, rs.length, a.needsExtraction⟩

/-- The texts of one line of the table, right-aligned but for the last. -/
def tableLine (offset stored size zlib type name : String) : String :=
  "  ".intercalate [Text.padLeft 10 offset, Text.padLeft 10 stored, Text.padLeft 10 size,
    Text.padLeft 4 zlib, Text.padLeft 4 type, name] ++ "\n"

/-- The line of an entry. -/
def entryLine (r : Record) : String :=
  tableLine (toString r.offset.toNat) (toString r.storedLength.toNat)
    (toString r.fullLength.toNat) (if r.isCompressed then "yes" else "no")
    (String.ofList [r.kind.letter]) r.name

/-- The table of some entries, under a line of headings. -/
def table (rs : List Record) : String :=
  tableLine "offset" "stored" "size" "zlib" "type" "name" ++ String.join (rs.map entryLine)

/-- The facts about a container, each on a line of its own. -/
def factsText (f : ArchiveFacts) : String :=
  let version := f.cookie.runtimeVersion.toNat
  String.join [s!"path: {f.path.text}\n", s!"base offset: {f.baseOffset}\n",
    s!"container length: {f.cookie.containerLength.toNat}\n",
    s!"toc offset: {f.cookie.contentsOffset.toNat}\n",
    s!"toc length: {f.cookie.contentsLength.toNat}\n",
    s!"runtime version: {version / 100}.{version % 100}\n",
    s!"runtime library: {f.cookie.runtimeLibrary}\n", s!"entries: {f.entryCount}\n",
    s!"needs extraction: {f.needsExtraction}\n"]

/-- A kind as JSON: its name, or its code if it has none. -/
def kindJson (k : EntryKind) : JsonValue :=
  match k.name? with
  | some name => .string name
  | none => .object [("Unknown", .number k.code.toNat)]

/-- An entry as JSON. -/
def entryJson (r : Record) : JsonValue := .object [
  ("name", .string r.name), ("kind", kindJson r.kind),
  ("type_code", .string (String.ofList [r.kind.letter])), ("offset", .number r.offset.toNat),
  ("compressed_len", .number r.storedLength.toNat),
  ("uncompressed_len", .number r.fullLength.toNat), ("compressed", .bool r.isCompressed)]

/-- Some entries as JSON. -/
def entriesJson (rs : List Record) : JsonValue := .array (rs.map entryJson)

/-- The facts about a container as JSON. -/
def factsJson (f : ArchiveFacts) : JsonValue := .object [
  ("path", .string f.path.text), ("base_offset", .number f.baseOffset),
  ("container_len", .number f.cookie.containerLength.toNat),
  ("toc_offset", .number f.cookie.contentsOffset.toNat),
  ("toc_len", .number f.cookie.contentsLength.toNat),
  ("runtime_version", .number f.cookie.runtimeVersion.toNat),
  ("runtime_library", .string f.cookie.runtimeLibrary), ("entries", .number f.entryCount),
  ("needs_extraction", .bool f.needsExtraction)]

end Listing

end Stowage
