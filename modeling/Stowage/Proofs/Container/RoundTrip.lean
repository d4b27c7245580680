import Stowage.Proofs.Container.Codec
import Stowage.Proofs.Container.Decoding
import Stowage.Proofs.Zlib.Repeats

/-!
# What is packed is unpacked

A container is written without a look at what stands before or after it, and its payloads
may hold anything, other containers included.  It is found again because the last magic of
the file is that of its cookie, and everything else is counted from there: the cookie
gives the start of the container and of its table (`Packing.ofContent_eq`), and each
record of the table gives the place of its payload (`Packing.payload_at`).

`load_packed` puts this together with the decoders.  It assumes of the compressor that
its streams stand for what was given to it.  What a payload decodes to is limited to
lengths of 32 bits, since the record has no room for more.  A short container does not keep
its payloads below that (`overlong_payload_lost`).
-/

namespace Stowage

open FileSystem Result

variable {fs : FileSystem} {path : Path} {content before suffix : Bytes}

/-- What stands in a list at the first place with a property is the first element with it. -/
theorem find?_eq_bind_findIdx? {α : Type} (p : α → Bool) (xs : List α) :
    xs.find? p = (xs.findIdx? p).bind fun i => xs[i]? := by
  induction xs with
  | nil => rfl
  | cons x xs ih =>
    rw [List.find?_cons, List.findIdx?_cons]
    by_cases hx : p x = true
    · simp only [hx, if_true]
      rfl
    · simp only [hx, if_false, ih, Bool.false_eq_true]
      cases xs.findIdx? p <;> rfl

/-! ## Packing -/

/-- An entry whose name and kind are read as they were written. -/
structure PackedEntry.IsFaithful (e : PackedEntry) : Prop where
  name : 0 ∉ Text.encode e.name
  kind : EntryKind.ofCode e.kind.code = e.kind

namespace Packing

/-- The records of a packing give their payloads one after the other. -/
theorem recordsFrom_getElem? {es : List PackedEntry} {offset i : Nat} {r : Record}
    (h : (recordsFrom offset es)[i]? = some r) : ∃ earlier e later, es = earlier ++ e :: later ∧
      es[i]? = some e ∧ r = e.record (offset + (earlier.flatMap (·.stored)).length) := by
  induction es generalizing offset i with
  | nil => cases h
  | cons e es ih =>
    cases i with
    | zero =>
      cases h
      exact ⟨[], e, es, rfl, rfl, rfl⟩
    | succ i =>
      obtain ⟨earlier, e', later, rfl, hat, rfl⟩ := ih h
      refine ⟨e :: earlier, e', later, rfl, hat, ?_⟩
      rw [List.flatMap_cons, List.length_append, Nat.add_assoc]

theorem length_bytes (p : Packing) :
    p.bytes.length = p.payloads.length + p.table.length + Cookie.size := by
  rw [bytes, List.length_append, List.length_append, Cookie.length_encode]

variable {p : Packing}

/-- Where the cookie stands in a file that holds a container. -/
def cookieAt (p : Packing) (before : Bytes) : Nat :=
  before.length + p.payloads.length + p.table.length

/-- The cookie stands behind the payloads and the table. -/
theorem drop_cookieAt (p : Packing) (before suffix : Bytes) :
    (before ++ p.bytes ++ suffix).drop (p.cookieAt before) = p.cookie.encode ++ suffix := by
  have hplace : p.cookieAt before = (before ++ p.payloads ++ p.table).length := by
    rw [List.length_append, List.length_append]
    rfl
  have hsplit : before ++ p.bytes ++ suffix =
      (before ++ p.payloads ++ p.table) ++ (p.cookie.encode ++ suffix) := by
    simp only [bytes, List.append_assoc]
  rw [hplace, hsplit, List.drop_left]

/-- The records of a table that is not too long. -/
theorem isFaithful_of_mem (hsize : p.bytes.length < UInt32.size)
    (hentries : ∀ e ∈ p.entries, e.IsFaithful) {r : Record} (hr : r ∈ recordsFrom 0 p.entries) :
    r.IsFaithful := by
  obtain ⟨i, hi⟩ := List.getElem?_of_mem hr
  obtain ⟨earlier, e, later, -, hat, rfl⟩ := recordsFrom_getElem? hi
  obtain ⟨hname, hkind⟩ := hentries e (List.mem_of_getElem? hat)
  refine ⟨hname, ?_, hkind⟩
  have hlength := Record.length_encode (e.record (0 + (earlier.flatMap (·.stored)).length))
  have hle := (List.sublist_flatten_of_mem (List.mem_map_of_mem (f := Record.encode) hr)).length_le
  have htable : ((recordsFrom 0 p.entries).map Record.encode).flatten = p.table :=
    List.flatMap_def.symm
  rw [htable, hlength] at hle
  rw [length_bytes] at hsize
  have hname' : (e.record (0 + (earlier.flatMap (·.stored)).length)).name = e.name := rfl
  rw [hname'] at hle ⊢
  exact UInt32.toNat_ofNat_of_lt' (by omega)

/-- The table is read back, record by record. -/
theorem records_table (hsize : p.bytes.length < UInt32.size)
    (hentries : ∀ e ∈ p.entries, e.IsFaithful) :
    Contents.records p.table = (Contents.placed 0 (recordsFrom 0 p.entries)).map .ok :=
  Contents.recordsFrom_encode (fun _ hr => isFaithful_of_mem hsize hentries hr) 0

/-- **A container is found** where it was written, whatever stands before and after it, if
no magic stands after that of its cookie. -/
theorem ofContent_eq (hlibrary : 0 ∉ Text.encode p.runtimeLibrary)
    (hfits : (Text.encode p.runtimeLibrary).length < Cookie.nameWidth)
    (hentries : ∀ e ∈ p.entries, e.IsFaithful) (hsize : p.bytes.length < UInt32.size)
    (hlast : ∀ i, Scan.Occurs Cookie.magic (before ++ p.bytes ++ suffix) i → i ≤ p.cookieAt before)
    (file : Handle) : ∃ needsExtraction, Archive.ofContent path file (before ++ p.bytes ++ suffix) =
      .ok ⟨path, file, (before ++ p.bytes ++ suffix).length, before.length, p.cookie, p.table,
        needsExtraction⟩ := by
  rw [length_bytes] at hsize
  have hat := p.drop_cookieAt before suffix
  have hstart : (before ++ p.bytes ++ suffix).drop (before.length + p.payloads.length) =
      p.table ++ (p.cookie.encode ++ suffix) := by
    have hsplit : before ++ p.bytes ++ suffix =
        (before ++ p.payloads) ++ (p.table ++ (p.cookie.encode ++ suffix)) := by
      simp only [bytes, List.append_assoc]
    rw [hsplit, ← List.length_append, List.drop_left]
  have hmagic : Scan.Occurs Cookie.magic (before ++ p.bytes ++ suffix) (p.cookieAt before) := by
    rw [Scan.Occurs, hat, Cookie.encode]
    simp only [List.append_assoc]
    exact List.prefix_append ..
  have hword {n : Nat} (hle : n ≤ p.payloads.length + p.table.length + Cookie.size) :
      n.toUInt32.toNat = n := UInt32.toNat_ofNat_of_lt' (by omega)
  have hcontents : p.cookie.contentsLength.toNat = p.table.length := hword (by omega)
  refine ⟨(Contents.sound (Contents.records p.table)).any (·.kind.isExtractable),
    Archive.ofContent_eq_ok.mpr ⟨p.cookieAt before, ⟨hmagic, hlast⟩, ?_, ?_,
    before.length + p.payloads.length, Archive.layOut_eq_ok.mpr ⟨?_, ?_, ?_, ?_⟩, ?_,
    Archive.checkTable_eq_ok.mpr ⟨?_, rfl⟩, rfl, rfl, rfl⟩⟩
  · rw [List.length_append, List.length_append, length_bytes, cookieAt]
    omega
  · rw [hat, List.take_left' (Cookie.length_encode _)]
    exact Cookie.parse_encode hlibrary hfits
  · show (p.payloads.length + p.table.length + Cookie.size).toUInt32.toNat ≤ _
    rw [hword (Nat.le_refl _), cookieAt]
    omega
  · show before.length = _ - (p.payloads.length + p.table.length + Cookie.size).toUInt32.toNat
    rw [hword (Nat.le_refl _), cookieAt]
    omega
  · show _ = before.length + p.payloads.length.toUInt32.toNat
    rw [hword (by omega)]
  · show before.length + p.payloads.length + p.cookie.contentsLength.toNat ≤ p.cookieAt before
    rw [hcontents]
    exact Nat.le_refl _
  · rw [hstart, hcontents, List.take_left]
  · rw [← length_bytes] at hsize
    refine Contents.isTable_iff.mpr fun e he => ?_
    rw [records_table hsize hentries] at he
    obtain ⟨r, -, rfl⟩ := List.mem_map.mp he
    exact ⟨r, rfl⟩

/-- **The payload of an entry** stands at the place that its record gives. -/
theorem payload_at (hsize : p.bytes.length < UInt32.size) {i : Nat} {r : Record} {e : PackedEntry}
    (hr : (recordsFrom 0 p.entries)[i]? = some r) (he : p.entries[i]? = some e)
    (before suffix : Bytes) : r.storedLength.toNat = e.stored.length ∧
      before.length + r.offset.toNat + e.stored.length ≤ (before ++ p.bytes ++ suffix).length ∧
      ∃ rest, (before ++ p.bytes ++ suffix).drop (before.length + r.offset.toNat) =
        e.stored ++ rest := by
  obtain ⟨earlier, e', later, hentries, hat, rfl⟩ := recordsFrom_getElem? hr
  cases he.symm.trans hat
  have hpayloads : p.payloads = earlier.flatMap (·.stored) ++
      (e.stored ++ later.flatMap (·.stored)) := by
    rw [payloads, hentries, List.flatMap_append, List.flatMap_cons]
  have hlong : p.payloads.length = (earlier.flatMap (·.stored)).length + (e.stored.length +
      (later.flatMap (·.stored)).length) := by
    rw [hpayloads, List.length_append, List.length_append]
  have hbytes := length_bytes p
  have hoffset : (e.record (0 + (earlier.flatMap (·.stored)).length)).offset.toNat =
      (earlier.flatMap (·.stored)).length := by
    show (0 + (earlier.flatMap (·.stored)).length).toUInt32.toNat = _
    rw [Nat.zero_add]
    exact UInt32.toNat_ofNat_of_lt' (by omega)
  refine ⟨?_, ?_, later.flatMap (·.stored) ++ (p.table ++ (p.cookie.encode ++ suffix)), ?_⟩
  · exact UInt32.toNat_ofNat_of_lt' (by omega)
  · rw [hoffset, List.length_append, List.length_append]
    omega
  · have hsplit : before ++ p.bytes ++ suffix = (before ++ earlier.flatMap (·.stored)) ++
        (e.stored ++ (later.flatMap (·.stored) ++ (p.table ++ (p.cookie.encode ++ suffix)))) := by
      simp only [bytes, hpayloads, List.append_assoc]
    rw [hoffset, hsplit, ← List.length_append, List.drop_left]

end Packing

/-! ## Reading payloads -/

/-- The payload of an entry that lies in the file is what its bytes decode to, and the
file is as it was. -/
theorem Archive.payload_apply [Zlib.Inflater] {a : Archive} {r : Record} {data : Bytes}
    {position : Nat} (hserves : fs.Serves a.file content position)
    (hlength : a.fileLength = content.length) (hstop : a.payloadStop r ≤ content.length) :
    (((a.payload r).apply fs).1 = .ok data ↔
      (∃ n, (decodeFrom r (content.drop (a.payloadStart r))).result = .ok n) ∧
      (decodeFrom r (content.drop (a.payloadStart r))).output = data) ∧
    ∃ position', ((a.payload r).apply fs).2.Serves a.file content position' := by
  have hinside : ¬a.fileLength < a.payloadStop r := by omega
  obtain ⟨fs', hseek, hserves'⟩ := hserves.seek (ε := ArchiveError)
    (a.payloadStart r + (decodeFrom r (content.drop (a.payloadStart r))).read)
  rw [payload]
  simp only [stream, Call.apply_bind, hinside, if_false, Call.apply_ask, hserves.contentOf, hseek,
    Call.apply_pure]
  cases (decodeFrom r (content.drop (a.payloadStart r))).result with
  | error fault =>
    refine ⟨⟨fun h => (by cases h), ?_⟩, _, hserves'⟩
    rintro ⟨⟨n, h⟩, -⟩
    cases h
  | ok n =>
    refine ⟨⟨fun h => ?_, ?_⟩, _, hserves'⟩
    · cases h
      exact ⟨⟨n, rfl⟩, rfl⟩
    · rintro ⟨-, rfl⟩
      rfl

/-- What a record says of its entry, but for the places. -/
def Record.summary (r : Record) : EntryKind × String × Bool × UInt32 × UInt32 :=
  (r.kind, r.name, r.isCompressed, r.storedLength, r.fullLength)

theorem Contents.map_placed {α : Type} {f : Record → α}
    (hf : ∀ r position, f { r with position := position } = f r) (position : Nat)
    (rs : List Record) : (placed position rs).map f = rs.map f := by
  induction rs generalizing position with
  | nil => rfl
  | cons r rs ih =>
    rw [placed, List.map_cons, List.map_cons, hf, ih]

/-! ## Sources -/

/-- What is to be packed: the byte of a kind, a name, and data that is to be compressed or
not. -/
structure Source where
  code : UInt8
  name : String
  data : Bytes
  isCompressed : Bool
  deriving DecidableEq, Repr

namespace Source

variable {compressor : Bytes → Bytes} {s : Source}

/-- The entry for a source. -/
def pack (compressor : Bytes → Bytes) (s : Source) : PackedEntry :=
  if s.isCompressed then .compressed compressor (.ofCode s.code) s.name s.data
  else .plain (.ofCode s.code) s.name s.data

/-- The bytes that are stored for a source. -/
def stored (compressor : Bytes → Bytes) (s : Source) : Bytes :=
  if s.isCompressed then compressor s.data else s.data

/-- What the record of a source has to say of it, but for the places. -/
def summary (compressor : Bytes → Bytes) (s : Source) :
    EntryKind × String × Bool × UInt32 × UInt32 :=
  (.ofCode s.code, s.name, s.isCompressed, (s.stored compressor).length.toUInt32,
    s.data.length.toUInt32)

theorem pack_eq (compressor : Bytes → Bytes) (s : Source) : s.pack compressor =
    ⟨.ofCode s.code, s.name, s.stored compressor, s.isCompressed, s.data.length⟩ := by
  rw [pack, stored]
  cases s.isCompressed <;> rfl

theorem isFaithful_pack (h : 0 ∉ Text.encode s.name) : (s.pack compressor).IsFaithful := by
  rw [pack_eq]
  exact ⟨h, congrArg _ (EntryKind.code_ofCode _)⟩

theorem map_summary (sources : List Source) (offset : Nat) :
    (Packing.recordsFrom offset (sources.map (pack compressor))).map Record.summary =
      sources.map (summary compressor) := by
  induction sources generalizing offset with
  | nil => rfl
  | cons s sources ih =>
    rw [List.map_cons, List.map_cons, Packing.recordsFrom, List.map_cons, ih, pack_eq]
    rfl

/-- **What was stored for a source** decodes to its data exactly if the length of the data
is a number of 32 bits. -/
theorem decodeFrom_stored [Zlib.Inflater] (hdecoder : Zlib.Inflater.decoder.DecodesZlib)
    (hinverts : ∀ data, Zlib.Decodes (compressor data) data) {r : Record}
    (hsummary : r.summary = s.summary compressor)
    (hstored : r.storedLength.toNat = (s.stored compressor).length) (rest : Bytes) :
    (∃ n, (Archive.decodeFrom r (s.stored compressor ++ rest)).result = .ok n) ∧
      (Archive.decodeFrom r (s.stored compressor ++ rest)).output = s.data ↔
    s.data.length < UInt32.size := by
  obtain ⟨-, hrest⟩ := Prod.mk.inj hsummary
  obtain ⟨-, hrest⟩ := Prod.mk.inj hrest
  obtain ⟨hflag, hrest⟩ := Prod.mk.inj hrest
  obtain ⟨-, hfull⟩ := Prod.mk.inj hrest
  have hmod : r.fullLength.toNat = s.data.length % UInt32.size := by
    rw [hfull]
    rfl
  have hlt := r.storedLength.toNat_lt
  have hword : UInt32.size = 2 ^ 32 := rfl
  rw [Archive.decodeFrom, hflag, hstored]
  rw [stored] at hstored ⊢
  cases hcompressed : s.isCompressed with
  | false =>
    rw [hcompressed] at hstored
    simp only [Bool.false_eq_true, if_false] at hstored ⊢
    have hlong : s.data.length ≤ (s.data ++ rest).length := by
      rw [List.length_append]
      exact Nat.le_add_right ..
    obtain ⟨houtput, hresult⟩ := Payload.copyStored_eq hlong
    rw [houtput, hresult, List.take_left]
    exact ⟨fun _ => by omega, fun _ => ⟨⟨_, rfl⟩, rfl⟩⟩
  | true =>
    simp only [if_true]
    have hdecode : Zlib.decode (compressor s.data) = ⟨.complete, s.data⟩ :=
      Zlib.decode_of_finishes (hinverts s.data)
    constructor
    · rintro ⟨⟨n, hresult⟩, houtput⟩
      have hlength := Payload.length_of_inflate_ok _ _ hresult
      rw [houtput, hmod] at hlength
      rw [hlength]
      exact Nat.mod_lt _ (by decide)
    · intro hfits
      obtain ⟨hresult, houtput⟩ := Payload.inflate_eq hdecoder hdecode rest
      rw [hmod, Nat.mod_eq_of_lt hfits]
      exact ⟨⟨_, hresult⟩, houtput⟩

end Source

/-! ## Packing and opening -/

/-- What is to be packed: a runtime and sources. -/
structure Parcel where
  runtimeVersion : UInt32
  runtimeLibrary : String
  sources : List Source
  deriving DecidableEq, Repr

namespace Parcel

/-- The container of a parcel. -/
def packing (compressor : Bytes → Bytes) (x : Parcel) : Packing :=
  ⟨x.runtimeVersion, x.runtimeLibrary, x.sources.map (Source.pack compressor)⟩

/-- A file that holds the container of a parcel. -/
def file (compressor : Bytes → Bytes) (x : Parcel) (before suffix : Bytes) : Bytes :=
  before ++ (x.packing compressor).bytes ++ suffix

variable {compressor : Bytes → Bytes} {x : Parcel}

theorem isFaithful_of_mem (hnames : ∀ s ∈ x.sources, 0 ∉ Text.encode s.name) {e : PackedEntry}
    (he : e ∈ (x.packing compressor).entries) : e.IsFaithful := by
  obtain ⟨s, hs, rfl⟩ := List.mem_map.mp he
  exact Source.isFaithful_pack (hnames s hs)

/-- The records of an archive whose table is that of a parcel. -/
theorem entries_eq (hnames : ∀ s ∈ x.sources, 0 ∉ Text.encode s.name)
    (hsize : (x.packing compressor).bytes.length < UInt32.size) {a : Archive}
    (htable : a.table = (x.packing compressor).table) :
    a.entries = a.records.map .ok ∧
      a.records = Contents.placed 0 (Packing.recordsFrom 0 (x.packing compressor).entries) := by
  have hrecords := Packing.records_table hsize fun _ he => isFaithful_of_mem hnames he
  rw [← htable] at hrecords
  rw [Archive.records, Archive.entries, hrecords, Contents.sound_map_ok]
  exact ⟨rfl, rfl⟩

theorem map_summary_records {a : Archive} (hrecords : a.records =
    Contents.placed 0 (Packing.recordsFrom 0 (x.packing compressor).entries)) :
    a.records.map Record.summary = x.sources.map (Source.summary compressor) := by
  rw [hrecords, Contents.map_placed fun _ _ => rfl]
  exact Source.map_summary x.sources 0

end Parcel

namespace Archive

variable {compressor : Bytes → Bytes} {x : Parcel}

/-- The first entry with a name stands where the first source with that name stands. -/
theorem find?_eq {a : Archive}
    (h : a.records.map Record.summary = x.sources.map (Source.summary compressor))
    (name : String) : a.find? name =
      (x.sources.findIdx? (·.name = name)).bind fun i => a.records[i]? := by
  have hnames : a.records.map (·.name) = x.sources.map (·.name) := by
    have := congrArg (List.map fun summary => summary.2.1) h
    rw [List.map_map, List.map_map] at this
    exact this
  have hindex := congrArg (List.findIdx? (decide <| · = name)) hnames
  rw [List.findIdx?_map, List.findIdx?_map] at hindex
  rw [find?, find?_eq_bind_findIdx?]
  exact congrArg (Option.bind · _) hindex

/-- **The payload of a source** comes back if its length fits into a record. -/
theorem payload_packed [Zlib.Inflater] (hdecoder : Zlib.Inflater.decoder.DecodesZlib)
    (hinverts : ∀ data, Zlib.Decodes (compressor data) data)
    (hsize : (x.packing compressor).bytes.length < UInt32.size) {a : Archive}
    (hrecords : a.records =
      Contents.placed 0 (Packing.recordsFrom 0 (x.packing compressor).entries))
    (hbase : a.baseOffset = before.length)
    (hlength : a.fileLength = (x.file compressor before suffix).length) {i : Nat} {r : Record}
    {s : Source} (hr : a.records[i]? = some r) (hs : x.sources[i]? = some s) {place : Nat}
    (hserves : fs.Serves a.file (x.file compressor before suffix) place) :
    (((a.payload r).apply fs).1 = .ok s.data ↔ s.data.length < UInt32.size) ∧
      ∃ place', ((a.payload r).apply fs).2.Serves a.file (x.file compressor before suffix)
        place' := by
  have hsummary : r.summary = s.summary compressor := by
    have := congrArg (·[i]?) (Parcel.map_summary_records hrecords)
    simp only [List.getElem?_map, hr, hs, Option.map_some] at this
    exact Option.some.inj this
  obtain ⟨r', hr', hoffset, hstored'⟩ : ∃ r', (Packing.recordsFrom 0
      (x.packing compressor).entries)[i]? = some r' ∧ r'.offset = r.offset ∧
      r'.storedLength = r.storedLength := by
    have hplaces := Contents.map_placed (f := fun r => (r.offset, r.storedLength))
      (fun _ _ => rfl) 0 (Packing.recordsFrom 0 (x.packing compressor).entries)
    rw [← hrecords] at hplaces
    have hat := congrArg (·[i]?) hplaces
    simp only [List.getElem?_map, hr, Option.map_some] at hat
    obtain ⟨r', hr', heq⟩ := Option.map_eq_some_iff.mp hat.symm
    obtain ⟨hoffset, hstored⟩ := Prod.mk.inj heq
    exact ⟨r', hr', hoffset, hstored⟩
  have hentry : (x.packing compressor).entries[i]? = some (s.pack compressor) := by
    show (x.sources.map (Source.pack compressor))[i]? = _
    rw [List.getElem?_map, hs]
    rfl
  obtain ⟨hstored, hstop, rest, hat⟩ := Packing.payload_at hsize hr' hentry before suffix
  have hbytes : (s.pack compressor).stored = s.stored compressor := by rw [Source.pack_eq]
  rw [hoffset, hbytes] at hat hstop
  rw [hstored', hbytes] at hstored
  have hstart : a.payloadStart r = before.length + r.offset.toNat := by
    rw [payloadStart, hbase]
  have hinside : a.payloadStop r ≤ (x.file compressor before suffix).length := by
    rw [payloadStop, hstart, hstored]
    exact hstop
  obtain ⟨hpayload, hafter⟩ := @payload_apply _ _ _ _ r s.data _ hserves hlength hinside
  refine ⟨hpayload.trans ?_, hafter⟩
  rw [hstart, show (x.file compressor before suffix).drop (before.length + r.offset.toNat) =
    s.stored compressor ++ rest from hat]
  exact Source.decodeFrom_stored hdecoder hinverts hsummary hstored rest

/-- **The container of a parcel is opened**, and what is read of it is the parcel. -/
theorem load_apply_packed (hlibrary : 0 ∉ Text.encode x.runtimeLibrary)
    (hfits : (Text.encode x.runtimeLibrary).length ≤ 63)
    (hnames : ∀ s ∈ x.sources, 0 ∉ Text.encode s.name)
    (hsize : (x.packing compressor).bytes.length < UInt32.size)
    (hlast : ∀ i, Scan.Occurs Cookie.magic (x.file compressor before suffix) i →
      i ≤ (x.packing compressor).cookieAt before)
    (hcontent : fs.content path = .ok (x.file compressor before suffix)) :
    ∃ a fs' position, (load path).apply fs = (.ok a, fs') ∧
      fs'.Serves a.file (x.file compressor before suffix) position ∧
      a.entries = a.records.map .ok ∧
      a.records = Contents.placed 0 (Packing.recordsFrom 0 (x.packing compressor).entries) ∧
      a.baseOffset = before.length ∧ a.cookie = (x.packing compressor).cookie ∧
      a.fileLength = (x.file compressor before suffix).length := by
  obtain ⟨fs', position, happly, hserves⟩ := load_apply hcontent
  obtain ⟨needed, hopened⟩ := @Packing.ofContent_eq path _ _ _ hlibrary
    (Nat.lt_succ_of_le hfits) (fun _ he => Parcel.isFaithful_of_mem hnames he) hsize hlast
    fs.openFiles.length
  rw [Parcel.file, hopened] at happly
  obtain ⟨hentries, hrecords⟩ := Parcel.entries_eq hnames hsize (a := ⟨path, fs.openFiles.length,
    (x.file compressor before suffix).length, before.length, (x.packing compressor).cookie,
    (x.packing compressor).table, needed⟩) rfl
  exact ⟨_, fs', position, happly, hserves, hentries, hrecords, rfl, rfl, rfl⟩

/-- **What is packed is unpacked** with any decoder for zlib streams.  A container that
stands anywhere in a file, with no magic after that of its cookie, is opened.  It starts
where it was put, names the runtime that it was given, lists the sources in order and finds
the first source with a name.  Asked in any order and as often as one likes, it gives back
the data of each source whose length fits into its record. -/
theorem load_packed [Zlib.Inflater] (hdecoder : Zlib.Inflater.decoder.DecodesZlib)
    (hinverts : ∀ data, Zlib.Decodes (compressor data) data)
    (hlibrary : 0 ∉ Text.encode x.runtimeLibrary)
    (hfits : (Text.encode x.runtimeLibrary).length ≤ 63)
    (hnames : ∀ s ∈ x.sources, 0 ∉ Text.encode s.name)
    (hsize : (x.packing compressor).bytes.length < UInt32.size)
    (hlast : ∀ i, Scan.Occurs Cookie.magic (x.file compressor before suffix) i →
      i ≤ (x.packing compressor).cookieAt before)
    (hcontent : fs.content path = .ok (x.file compressor before suffix)) :
    ∃ a fs' position, (load path).apply fs = (.ok a, fs') ∧
      fs'.Serves a.file (x.file compressor before suffix) position ∧
      a.baseOffset = before.length ∧ a.cookie.runtimeVersion = x.runtimeVersion ∧
      a.cookie.runtimeLibrary = x.runtimeLibrary ∧ a.entries = a.records.map .ok ∧
      a.records.map Record.summary = x.sources.map (Source.summary compressor) ∧
      (∀ name, a.find? name =
        (x.sources.findIdx? (·.name = name)).bind fun i => a.records[i]?) ∧
      ∀ (i : Nat) (r : Record) (s : Source) (now : FileSystem) (place : Nat),
        a.records[i]? = some r → x.sources[i]? = some s →
        now.Serves a.file (x.file compressor before suffix) place →
        (((a.payload r).apply now).1 = .ok s.data ↔ s.data.length < UInt32.size) ∧
        ∃ place', ((a.payload r).apply now).2.Serves a.file (x.file compressor before suffix)
          place' := by
  obtain ⟨a, fs', position, happly, hserves, hentries, hrecords, hbase, hcookie, hlength⟩ :=
    load_apply_packed hlibrary hfits hnames hsize hlast hcontent
  have hsummary := Parcel.map_summary_records hrecords
  refine ⟨a, fs', position, happly, hserves, hbase, ?_, ?_, hentries, hsummary, find?_eq hsummary,
    fun i r s now place hr hs hnow => payload_packed hdecoder hinverts hsize hrecords hbase hlength
      hr hs hnow⟩
  · rw [hcookie]
    rfl
  · rw [hcookie]
    rfl

/-- Two sources of one name, the first compressed, the second with a magic for its data. -/
def twins : Parcel :=
  ⟨311, "lib.so", [⟨120, "a", [1, 2, 3], true⟩, ⟨7, "a", Cookie.magic, false⟩]⟩

/-- The stream for the data of the first source. -/
def twinStream : Bytes := [120, 1, 1, 3, 0, 252, 255, 1, 2, 3, 0, 13, 0, 7]

/-- The general statement for the two sources in the middle of a file. -/
theorem load_packed_twins :
    Zlib.Inflater.decoder.DecodesZlib ∧ (∀ data, Zlib.Decodes (Zlib.encode data) data) ∧
    (holding (twins.file Zlib.encode [9] [0])).content ⟨"/a"⟩ =
      .ok (twins.file Zlib.encode [9] [0]) ∧
    ∃ a fs' position, (load ⟨"/a"⟩).apply (holding (twins.file Zlib.encode [9] [0])) =
        (.ok a, fs') ∧
      fs'.Serves a.file (twins.file Zlib.encode [9] [0]) position ∧ a.baseOffset = 1 ∧
      a.records.map Record.summary = [(.data, "a", true, 14, 3), (.unknown 7, "a", false, 8, 8)] ∧
      a.find? "a" = a.records[0]? ∧
      (∀ r, a.records[0]? = some r → ((a.payload r).apply fs').1 = .ok [1, 2, 3]) ∧
      ∀ r, a.records[1]? = some r → ((a.payload r).apply fs').1 = .ok Cookie.magic := by
  have hstream : Zlib.encode [1, 2, 3] = twinStream := by
    rw [Zlib.encode, Zlib.storedBlocks, dif_pos (by decide)]
    decide
  have hpacking : twins.packing Zlib.encode = twins.packing fun _ => twinStream := by
    show Packing.mk 311 "lib.so" [.mk .data "a" (Zlib.encode [1, 2, 3]) true 3, _] = _
    rw [hstream]
    rfl
  have hlast : Scan.IsLast Cookie.magic (twins.file Zlib.encode [9] [0])
      ((twins.packing Zlib.encode).cookieAt [9]) := by
    rw [Parcel.file, hpacking]
    exact (Scan.lastIn_eq_some_iff (by decide)).mp (by decide +kernel)
  have hsize : (twins.packing Zlib.encode).bytes.length < UInt32.size := by
    rw [hpacking]
    decide +kernel
  obtain ⟨a, fs', position, happly, hserves, hbase, -, -, -, hsummary, hfind, hpayload⟩ :=
    load_packed Zlib.decodesZlib_zlib Zlib.decodes_encode (by decide) (by decide) (by decide)
      hsize hlast.greatest (content_holding (twins.file Zlib.encode [9] [0]))
  refine ⟨Zlib.decodesZlib_zlib, Zlib.decodes_encode, content_holding _, a, fs', position, happly,
    hserves, hbase, ?_, hfind "a", fun r hr => ?_, fun r hr => ?_⟩
  · rw [hsummary]
    show [(EntryKind.data, "a", true, (Zlib.encode [1, 2, 3]).length.toUInt32, (3 : UInt32)), _] = _
    rw [hstream]
    rfl
  · exact (hpayload 0 r ⟨120, "a", [1, 2, 3], true⟩ fs' position hr rfl hserves).1.mpr
      (by decide)
  · exact (hpayload 1 r ⟨7, "a", Cookie.magic, false⟩ fs' position hr rfl hserves).1.mpr
      (by decide)

/-- A source with many zeros, for which there is a short stream. -/
def zeros (k : Nat) : Source := ⟨120, "zeros", List.replicate (1032 * k + 775) 0, true⟩

/-- That source alone. -/
def zerosParcel (k : Nat) : Parcel := ⟨311, "libpython3.11.so.1.0", [zeros k]⟩

/-- The container of that source, packed with a compressor that has the short stream. -/
def zerosPacking (k : Nat) : Packing := (zerosParcel k).packing (Zlib.sparing k)

/-- The container as a file of its own. -/
def zerosFile (k : Nat) : Bytes := (zerosParcel k).file (Zlib.sparing k) [] []

theorem length_payloads_zeros (k : Nat) : (zerosPacking k).payloads.length = k + 26 := by
  have hcompressed : (zeros k).isCompressed = true := rfl
  have hstored : ((zeros k).pack (Zlib.sparing k)).stored = Zlib.zeroStream k := by
    rw [Source.pack_eq, Source.stored, if_pos hcompressed, zeros, Zlib.sparing_zeros]
  show ([(zeros k).pack (Zlib.sparing k)].flatMap (·.stored)).length = _
  rw [List.flatMap_singleton, hstored, Zlib.length_zeroStream]

theorem length_table_zeros (k : Nat) : (zerosPacking k).table.length = 34 := by
  show ([((zeros k).pack (Zlib.sparing k)).record 0].flatMap Record.encode).length = 34
  rw [List.flatMap_singleton, Record.length_encode, Source.pack_eq]
  show Record.headerSize + Record.paddedLength (Text.encode "zeros") = 34
  decide

theorem isLast_zeros {k : Nat} (h : Scan.IsLast Cookie.magic (zerosPacking k).cookie.encode 0) :
    Scan.IsLast Cookie.magic (zerosFile k) ((zerosPacking k).cookieAt []) := by
  have hdrop : (zerosFile k).drop ((zerosPacking k).cookieAt []) =
      (zerosPacking k).cookie.encode ++ [] := (zerosPacking k).drop_cookieAt [] []
  rw [List.append_nil] at hdrop
  rw [← hdrop] at h
  have hlast := h.of_drop
  rwa [Nat.add_zero] at hlast

theorem isLast_cookie_zeros : Scan.IsLast Cookie.magic (zerosPacking 4161790).cookie.encode 0 := by
  have hcookie : (zerosPacking 4161790).cookie =
      ⟨4161938, 4161816, 34, 311, "libpython3.11.so.1.0"⟩ := by
    rw [Packing.cookie, length_payloads_zeros, length_table_zeros]
    rfl
  rw [hcookie]
  exact (Scan.lastIn_eq_some_iff (by decide)).mp (by decide +kernel)

/-- **A source that is too long** for its record does not come back, although its container
takes four megabytes and is opened: the record gives its length as 759. -/
theorem overlong_payload_lost :
    (∀ data, Zlib.Decodes (Zlib.sparing 4161790 data) data) ∧
    0 ∉ Text.encode (zerosParcel 4161790).runtimeLibrary ∧
    (Text.encode (zerosParcel 4161790).runtimeLibrary).length ≤ 63 ∧
    (∀ s ∈ (zerosParcel 4161790).sources, 0 ∉ Text.encode s.name) ∧
    (zerosPacking 4161790).bytes.length < UInt32.size ∧
    (∀ i, Scan.Occurs Cookie.magic (zerosFile 4161790) i → i ≤ (zerosPacking 4161790).cookieAt []) ∧
    (holding (zerosFile 4161790)).content ⟨"/a"⟩ = .ok (zerosFile 4161790) ∧
    (zeros 4161790).data.length = 4294968055 ∧
    ∃ a fs' r, (load ⟨"/a"⟩).apply (holding (zerosFile 4161790)) = (.ok a, fs') ∧
      a.entries = [.ok r] ∧ r.name = "zeros" ∧ r.fullLength = 759 ∧
      ((a.payload r).apply fs').1 ≠ .ok (zeros 4161790).data := by
  have hlibrary : 0 ∉ Text.encode (zerosParcel 4161790).runtimeLibrary := by decide
  have hfits : (Text.encode (zerosParcel 4161790).runtimeLibrary).length ≤ 63 := by decide
  have hnames : ∀ s ∈ (zerosParcel 4161790).sources, 0 ∉ Text.encode s.name := by decide
  have hsize : (zerosPacking 4161790).bytes.length < UInt32.size := by
    rw [Packing.length_bytes, length_payloads_zeros, length_table_zeros]
    decide
  have hlast := (isLast_zeros isLast_cookie_zeros).greatest
  have hlong : (zeros 4161790).data.length = 4294968055 := List.length_replicate
  obtain ⟨a, fs', position, happly, hserves, hentries, hrecords, hbase, -, hlength⟩ :=
    load_apply_packed hlibrary hfits hnames hsize hlast (content_holding (zerosFile 4161790))
  have hsummary := Parcel.map_summary_records hrecords
  obtain ⟨r, hr⟩ : ∃ r, a.records = [r] := by
    rw [← List.length_eq_one_iff, ← List.length_map (f := Record.summary), hsummary]
    rfl
  rw [hr] at hsummary hentries
  have hrecord : r.summary = (zeros 4161790).summary (Zlib.sparing 4161790) :=
    (List.cons.inj hsummary).1
  refine ⟨Zlib.decodes_sparing 4161790, hlibrary, hfits, hnames, hsize, hlast, content_holding _,
    hlong, a, fs', r, happly, hentries, congrArg (·.2.1) hrecord, ?_, fun hpayload => ?_⟩
  · have hfull : r.fullLength = (zeros 4161790).data.length.toUInt32 :=
      congrArg (·.2.2.2.2) hrecord
    rw [hfull, hlong]
    rfl
  · have hat : a.records[0]? = some r := by rw [hr]; rfl
    have hshort := (payload_packed Zlib.decodesZlib_zlib (Zlib.decodes_sparing 4161790) hsize
      hrecords hbase hlength hat rfl hserves).1.mp hpayload
    rw [hlong] at hshort
    exact absurd hshort (by decide)

end Archive
end Stowage
