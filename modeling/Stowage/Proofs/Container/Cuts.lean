import Stowage.Proofs.Container.RoundTrip
import Stowage.Proofs.Unpack.Placing

/-!
# Bytes in front of a container, and bytes taken away

Every place in a container is counted back from its cookie.  Bytes in front of a file with a
container therefore move the container as a whole (`Format.append_iff`), and its payloads
decode as before (`Archive.decoding_moved`).  What is taken away in front is not missed as
long as the container stays whole, and what is taken away at the end is not missed as long
as the cookie does (`Format.take_iff`).

`load_after_cuts` puts this together.
-/

namespace Stowage

open FileSystem Result

variable {fs fs' : FileSystem} {path : Path} {content front : Bytes} {position : Nat} {ε : Type}

/-! ## Reports of places -/

/-- What is too short, in a file in which everything stands further back. -/
def Truncation.moved (count : Nat) : Truncation → Truncation
  | payloadEndsEarly => payloadEndsEarly
  | payloadBeyondFile start stop fileLength =>
    payloadBeyondFile (count + start) (count + stop) (count + fileLength)
  | cookieBeyondFile position fileLength => cookieBeyondFile (count + position) (count + fileLength)
  | contentsOverlapCookie start stop position =>
    contentsOverlapCookie (count + start) (count + stop) (count + position)

/-- A fault of the same kind, in a file in which everything stands further back. -/
def ArchiveFault.moved (count : Nat) : ArchiveFault → ArchiveFault
  | truncated what => truncated (what.moved count)
  | fault => fault

/-- An error of the same kind about the same entry, in a file in which everything stands further
back. -/
def ArchiveError.moved (count : Nat) (e : ArchiveError) : ArchiveError :=
  ⟨e.entry, e.fault.moved count⟩

/-- The same decoding, in a file in which everything stands further back. -/
def Decoding.moved (count : Nat) (d : Decoding) : Decoding :=
  { d with result := d.result.mapError (·.moved count) }

/-- A fault of a payload itself, which tells of no place in a file. -/
def ArchiveFault.IsOfPayload (fault : ArchiveFault) : Prop :=
  fault = .truncated .payloadEndsEarly ∨ ∃ what, fault = .inflate what

theorem ArchiveFault.IsOfPayload.moved_eq {fault : ArchiveFault} (h : fault.IsOfPayload)
    (count : Nat) : fault.moved count = fault := by
  obtain rfl | ⟨what, rfl⟩ := h <;> rfl

namespace Payload

theorem isOfPayload_of_copyChunks {source : Bytes} {left : Nat} {fault : ArchiveFault}
    (h : (copyChunks source left).result = .error fault) : fault.IsOfPayload := by
  fun_induction copyChunks source left with
  | case1 => cases h
  | case2 =>
    cases h
    exact .inl rfl
  | case3 source left hleft want chunk hfull ih => exact ih h

theorem isOfPayload_of_drainChunk {d : Zlib.Decoder} {declared : Nat} {state : d.State}
    {chunk : Bytes} {total : Nat} {fault : ArchiveFault}
    (h : (drainChunk d declared state chunk total).ending = .finished (.error fault)) :
    fault.IsOfPayload := by
  fun_induction drainChunk d declared state chunk total with
  | case1 =>
    cases h
    exact .inr ⟨_, rfl⟩
  | case2 =>
    cases h
    exact .inr ⟨_, rfl⟩
  | case3 state chunk total p hstep hlong hended =>
    have h : ChunkEnd.finished (streamEnd declared (total + p.output.length)) =
      (.finished (.error fault) : ChunkEnd d.State) := h
    rw [streamEnd] at h
    split at h
    · cases h
    · cases h
      exact .inr ⟨_, rfl⟩
  | case4 => cases h
  | case5 =>
    cases h
    exact .inr ⟨_, rfl⟩
  | case6 state chunk total p hstep hlong hended hused hstalled ih => exact ih h

theorem isOfPayload_of_inflateChunks {d : Zlib.Decoder} {declared : Nat} {state : d.State}
    {source : Bytes} {left total : Nat} {fault : ArchiveFault}
    (h : (inflateChunks d declared state source left total).result = .error fault) :
    fault.IsOfPayload := by
  fun_induction inflateChunks d declared state source left total with
  | case1 =>
    cases h
    exact .inr ⟨_, rfl⟩
  | case2 =>
    cases h
    exact .inl rfl
  | case3 state source left total hleft want chunk hfull work result hend =>
    obtain rfl : result = .error fault := h
    exact isOfPayload_of_drainChunk hend
  | case4 state source left total hleft want chunk hfull work state' total' hend ih => exact ih h

end Payload

namespace Archive

variable [Zlib.Inflater]

/-- **What is wrong with the bytes of a payload** is told without a place. -/
theorem isOfPayload_of_decodeFrom {r : Record} {source : Bytes} {fault : ArchiveFault}
    (h : (decodeFrom r source).result = .error fault) : fault.IsOfPayload := by
  rw [decodeFrom] at h
  split at h
  · rw [Payload.inflate] at h
    split at h
    · cases h
      exact .inr ⟨_, rfl⟩
    · exact Payload.isOfPayload_of_inflateChunks h
  · rw [Payload.copyStored] at h
    cases hcopied : (Payload.copyChunks source r.storedLength.toNat).result with
    | ok n =>
      simp only [hcopied] at h
      cases h
    | error fault' =>
      simp only [hcopied] at h
      cases h
      exact Payload.isOfPayload_of_copyChunks hcopied

theorem moved_decodeFrom (count : Nat) (r : Record) (source : Bytes) :
    (decodeFrom r source).moved count = decodeFrom r source := by
  rw [Decoding.moved]
  cases hresult : (decodeFrom r source).result with
  | ok n =>
    rw [mapError_ok, ← hresult]
  | error fault =>
    rw [mapError_error, (isOfPayload_of_decodeFrom hresult).moved_eq, ← hresult]

variable {a a' : Archive} {place place' : Nat}

/-- An archive whose file has more in front than that of another, and is the same from there on. -/
structure IsMoved (count : Nat) (a a' : Archive) : Prop where
  baseOffset : a'.baseOffset = count + a.baseOffset
  fileLength : a'.fileLength = count + a.fileLength
  cookie : a'.cookie = a.cookie
  entries : a'.entries = a.entries
  needsExtraction : a'.needsExtraction = a.needsExtraction

/-- **A payload decodes as before**, with its places further back. -/
theorem IsMoved.decoding (h : IsMoved front.length a a') (hserves : fs.Serves a.file content place)
    (hserves' : fs'.Serves a'.file (front ++ content) place') (r : Record) :
    a'.decoding r fs' = (a.decoding r fs).moved front.length := by
  have hstart : a'.payloadStart r = front.length + a.payloadStart r := by
    rw [payloadStart, payloadStart, h.baseOffset, Nat.add_assoc]
  have hstop : a'.payloadStop r = front.length + a.payloadStop r := by
    rw [payloadStop, payloadStop, hstart, Nat.add_assoc]
  rw [Archive.decoding, Archive.decoding, hstop, hstart, h.fileLength, hserves.contentOf,
    hserves'.contentOf]
  by_cases hbeyond : a.fileLength < a.payloadStop r
  · rw [if_pos hbeyond, if_pos (Nat.add_lt_add_left hbeyond _)]
    rfl
  · rw [if_neg hbeyond, if_neg fun hlt => hbeyond (Nat.lt_of_add_lt_add_left hlt),
      moved_decodeFrom, List.drop_length_add_append]

theorem IsMoved.stream (h : IsMoved front.length a a') (hserves : fs.Serves a.file content place)
    (hserves' : fs'.Serves a'.file (front ++ content) place') (r : Record) :
    ((a'.stream r : Call ε Decoding).apply fs').1 =
      ((a.stream r : Call ε Decoding).apply fs).1.map (·.moved front.length) := by
  rw [stream_result, stream_result, h.decoding hserves hserves']
  rfl

theorem IsMoved.payload (h : IsMoved front.length a a') (hserves : fs.Serves a.file content place)
    (hserves' : fs'.Serves a'.file (front ++ content) place') (r : Record) :
    ((a'.payload r).apply fs').1 =
      ((a.payload r).apply fs).1.mapError (·.moved front.length) := by
  rw [payload_result, payload_result, h.decoding hserves hserves', Decoding.moved]
  cases (a.decoding r fs).result <;> rfl

end Archive

/-! ## The format -/

namespace Format

theorem occurs_append {pattern : Bytes} {i : Nat} :
    Scan.Occurs pattern (front ++ content) (front.length + i) ↔ Scan.Occurs pattern content i := by
  rw [← Scan.occurs_drop, List.drop_left]

theorem isLast_append {pattern : Bytes} :
    Scan.IsLast pattern (front ++ content) (front.length + position) ↔
      Scan.IsLast pattern content position := by
  constructor
  · intro h
    refine ⟨occurs_append.mp h.occurs, fun j hj => ?_⟩
    have := h.greatest _ (occurs_append.mpr hj)
    omega
  · intro h
    refine ⟨occurs_append.mpr h.occurs, fun j hj => ?_⟩
    by_cases hj' : front.length ≤ j
    · rw [← Nat.add_sub_cancel' hj'] at hj
      have := h.greatest _ (occurs_append.mp hj)
      omega
    · omega

theorem word_append (i : Nat) :
    Word.at32 (front ++ content) (front.length + position + i) =
      Word.at32 content (position + i) := by
  rw [Nat.add_assoc, ← Word.at32_drop, List.drop_left]

theorem library_append :
    library (front ++ content) (front.length + position) = library content position := by
  rw [library, library, Nat.add_assoc, List.drop_length_add_append]

/-- **A container behind other bytes** is a container, unless it claims some of them. -/
theorem append_iff : Format content position ↔
    Format (front ++ content) (front.length + position) ∧
      containerLength content position ≤ position + Cookie.size := by
  have hlength : containerLength (front ++ content) (front.length + position) =
      containerLength content position := by
    rw [containerLength, containerLength, word_append]
  have hcontents : contentsLength (front ++ content) (front.length + position) =
      contentsLength content position := by
    rw [contentsLength, contentsLength, word_append]
  have hstart (hfits : containerLength content position ≤ position + Cookie.size) :
      tableStart (front ++ content) (front.length + position) =
        front.length + tableStart content position := by
    rw [tableStart, tableStart, hlength, contentsOffset, contentsOffset, word_append]
    omega
  have htable (hfits : containerLength content position ≤ position + Cookie.size) :
      table (front ++ content) (front.length + position) = table content position := by
    rw [table, table, hstart hfits, hcontents, List.drop_length_add_append]
  constructor
  · rintro ⟨hlong, hlast, hwhole, htext, hfits, hbefore, hrecords⟩
    refine ⟨⟨?_, isLast_append.mpr hlast, ?_, ?_, ?_, ?_, ?_⟩, hfits⟩
    · rw [List.length_append]
      omega
    · rw [List.length_append]
      omega
    · rwa [library_append]
    · rw [hlength]
      omega
    · rw [hstart hfits, hcontents]
      omega
    · rwa [htable hfits]
  · rintro ⟨⟨hlong, hlast, hwhole, htext, -, hbefore, hrecords⟩, hfits⟩
    rw [List.length_append] at hwhole
    rw [library_append] at htext
    rw [hstart hfits, hcontents] at hbefore
    rw [htable hfits] at hrecords
    exact ⟨by omega, isLast_append.mp hlast, by omega, htext, hfits, by omega, hrecords⟩

/-- **A container before other bytes** is a container if its cookie is there in full. -/
theorem take_iff (h : Format content position) (stop : Nat) :
    Format (content.take stop) position ↔ position + Cookie.size ≤ stop := by
  constructor
  · intro h'
    have := h'.whole
    rw [List.length_take] at this
    omega
  intro hstop
  have hsize : Cookie.size = 88 := rfl
  have hword {i : Nat} (hi : i + 4 ≤ Cookie.size) :
      Word.at32 (content.take stop) (position + i) = Word.at32 content (position + i) :=
    Word.at32_take (by omega)
  have hlength : containerLength (content.take stop) position =
      containerLength content position := by
    rw [containerLength, containerLength, hword (by decide)]
  have hcontents : contentsLength (content.take stop) position =
      contentsLength content position := by
    rw [contentsLength, contentsLength, hword (by decide)]
  have hstart : tableStart (content.take stop) position = tableStart content position := by
    rw [tableStart, tableStart, hlength, contentsOffset, contentsOffset, hword (by decide)]
  have hmagic : Cookie.magic.length ≤ Cookie.size := by decide
  have hlibrary : library (content.take stop) position = library content position := by
    have hwidth : Cookie.nameWidth = 64 := rfl
    rw [library, library, List.drop_take, List.take_take, Nat.min_eq_left (by omega)]
  have hbefore := h.before
  have htable : table (content.take stop) position = table content position := by
    rw [table, table, hstart, hcontents, List.drop_take, List.take_take,
      Nat.min_eq_left (by omega)]
  have hwhole := h.whole
  refine ⟨?_, ⟨?_, fun j hj => ?_⟩, ?_, ?_, ?_, ?_, ?_⟩
  · rw [List.length_take]
    omega
  · exact (Scan.occurs_take (by decide)).mpr ⟨h.last.occurs, by omega⟩
  · exact h.last.greatest j ((Scan.occurs_take (by decide)).mp hj).1
  · rw [List.length_take]
    omega
  · rw [hlibrary]
    exact h.text
  · rw [hlength]
    exact h.fits
  · rwa [hstart, hcontents]
  · rw [htable]
    exact h.records

end Format

/-! ## Opening -/

namespace Archive

variable {a : Archive}

theorem load_eq_ok (h : fs.content path = .ok content) :
    ((load path).apply fs).1 = .ok a ↔ ofContent path fs.openFiles.length content = .ok a := by
  obtain ⟨fs', position, happly, -⟩ := load_apply h
  rw [happly]
  exact mapError_eq_ok

/-- A file can be opened if its content has the format. -/
theorem exists_load_iff (h : fs.content path = .ok content) :
    (∃ a, ((load path).apply fs).1 = .ok a) ↔ ∃ position, Format content position := by
  rw [← @ofContent_ok_iff path content fs.openFiles.length]
  exact exists_congr fun a => load_eq_ok h

/-- What is opened in a file with more in front is the same archive, further back. -/
theorem ofContent_append {file : Handle} (h : ofContent path file content = .ok a)
    (front : Bytes) (path' : Path) (file' : Handle) :
    ∃ a', ofContent path' file' (front ++ content) = .ok a' ∧ IsMoved front.length a a' ∧
      a'.file = file' := by
  obtain ⟨position, hlast, hwhole, hcookie, start, hlayout, htable, hcheck, -, -, hlength⟩ :=
    ofContent_eq_ok.mp h
  obtain ⟨hfits, hbase, hstart, hbefore⟩ := layOut_eq_ok.mp hlayout
  refine ⟨{ a with
    path := path', file := file'
    fileLength := (front ++ content).length
    baseOffset := front.length + a.baseOffset },
    ofContent_eq_ok.mpr ⟨front.length + position, Format.isLast_append.mpr hlast, ?_, ?_,
      front.length + start, layOut_eq_ok.mpr ⟨?_, ?_, ?_, ?_⟩, ?_, hcheck, rfl, rfl, rfl⟩,
    ⟨rfl, ?_, rfl, rfl, rfl⟩, rfl⟩
  · rw [List.length_append]
    omega
  · rwa [List.drop_length_add_append]
  · show a.cookie.containerLength.toNat ≤ _
    omega
  · show front.length + a.baseOffset = _ - a.cookie.containerLength.toNat
    omega
  · show _ = front.length + a.baseOffset + a.cookie.contentsOffset.toNat
    omega
  · show _ + a.cookie.contentsLength.toNat ≤ _
    omega
  · rw [List.drop_length_add_append]
    exact htable
  · rw [hlength, List.length_append]

/-- An archive starts where the numbers of its cookie say. -/
theorem baseOffset_eq {file : Handle} (h : ofContent path file content = .ok a)
    (hformat : Format content position) :
    a.baseOffset + Format.containerLength content position = position + Cookie.size ∧
      a.baseOffset ≤ position := by
  obtain ⟨position', hlast, -, hcookie, start, hlayout, -⟩ := ofContent_eq_ok.mp h
  cases hlast.unique hformat.last
  obtain ⟨-, hlength, -⟩ := (parse_of_last hlast).mp hcookie
  obtain ⟨hfits, hbase, hstart, hbefore⟩ := layOut_eq_ok.mp hlayout
  rw [hlength] at hfits hbase
  rw [Format.containerLength]
  omega

/-- **Bytes that are missing in front** are missed if they belong to the container. -/
theorem format_drop_iff {file : Handle} (h : ofContent path file content = .ok a)
    (hformat : Format content position) (count : Nat) :
    (∃ position', Format (content.drop count) position') ↔ count ≤ a.baseOffset := by
  obtain ⟨hbase, hle⟩ := baseOffset_eq h hformat
  have hwhole := hformat.whole
  have hsize : Cookie.size = 88 := rfl
  by_cases hcount : count ≤ content.length
  · have hfront : (content.take count).length = count := List.length_take_of_le hcount
    have happend (position' : Nat) := @Format.append_iff (content.drop count) (content.take count)
      position'
    simp only [List.take_append_drop, hfront] at happend
    have hlength {position' : Nat} (hposition : count + position' = position) :
        Format.containerLength (content.drop count) position' =
          Format.containerLength content position := by
      rw [Format.containerLength, Format.containerLength, Word.at32_drop, ← hposition,
        Nat.add_assoc]
    constructor
    · rintro ⟨position', hformat'⟩
      -- put back in front, the bytes give the same cookie, and this container claims none of them
      obtain ⟨hmoved, hfits⟩ := (happend position').mp hformat'
      rw [hlength (hmoved.last.unique hformat.last)] at hfits
      have := hmoved.last.unique hformat.last
      omega
    · intro hinside
      have hposition : count + (position - count) = position := by omega
      refine ⟨position - count, (happend _).mpr ⟨?_, ?_⟩⟩
      · rwa [hposition]
      · rw [hlength hposition]
        omega
  · have hnil : content.drop count = [] := List.drop_eq_nil_of_le (by omega)
    constructor
    · rintro ⟨position', hformat'⟩
      have := hformat'.long
      rw [hnil] at this
      cases this
    · intro hinside
      omega

/-- **Bytes that are missing at the end** are missed if they belong to the cookie. -/
theorem format_take_iff (hformat : Format content position)
    (honly : ∀ i, Scan.Occurs Cookie.magic content i → i = position) (count : Nat) :
    (∃ position', Format (content.take (content.length - count)) position') ↔
      count ≤ content.length - (position + Cookie.size) := by
  have hwhole := hformat.whole
  have hsize : Cookie.size = 88 := rfl
  have hiff := hformat.take_iff (content.length - count)
  constructor
  · rintro ⟨position', hformat'⟩
    -- what is left has its magic where the whole file has one
    obtain rfl := honly _ ((Scan.occurs_take (by decide)).mp hformat'.last.occurs).1
    have := hiff.mp hformat'
    omega
  · intro hcount
    exact ⟨position, hiff.mpr (by omega)⟩

/-- **What bytes in front and missing bytes do to a container.**  A file with other bytes in
front of it is opened as well: the container is the same, further back, with the same entries,
and each of them extracts to the same bytes or fails with the same kind of error.  A file that
has lost bytes in front is opened exactly if they stood before the container, and, if it has
one magic only, a file that has lost bytes at the end exactly if they stood after the cookie. -/
theorem load_after_cuts [Zlib.Inflater] (hcontent : fs.content path = .ok content)
    (hload : ((load path).apply fs).1 = .ok a) :
    ∃ position, Scan.IsLast Cookie.magic content position ∧
      (∀ (front : Bytes) (fs' : FileSystem) (path' : Path),
        fs'.content path' = .ok (front ++ content) →
        ∃ a' fs'' place, (load path').apply fs' = (.ok a', fs'') ∧
          fs''.Serves a'.file (front ++ content) place ∧
          Scan.IsLast Cookie.magic (front ++ content) (front.length + position) ∧
          IsMoved front.length a a' ∧
          ∀ (r : Record) (now now' : FileSystem) (here there : Nat),
            now.Serves a.file content here → now'.Serves a'.file (front ++ content) there →
            ((a'.stream r : Call ArchiveError Decoding).apply now').1 =
              ((a.stream r : Call ArchiveError Decoding).apply now).1.map
                (·.moved front.length) ∧
            ((a'.payload r).apply now').1 =
              ((a.payload r).apply now).1.mapError (·.moved front.length)) ∧
      (∀ (count : Nat) (fs' : FileSystem) (path' : Path),
        fs'.content path' = .ok (content.drop count) →
        ((∃ a', ((load path').apply fs').1 = .ok a') ↔ count ≤ a.baseOffset)) ∧
      ((∀ i, Scan.Occurs Cookie.magic content i → i = position) →
        ∀ (count : Nat) (fs' : FileSystem) (path' : Path),
        fs'.content path' = .ok (content.take (content.length - count)) →
        ((∃ a', ((load path').apply fs').1 = .ok a') ↔
          count ≤ content.length - (position + Cookie.size))) := by
  have hopened := (load_eq_ok hcontent).mp hload
  obtain ⟨position, hformat⟩ := (exists_load_iff hcontent).mp ⟨a, hload⟩
  refine ⟨position, hformat.last, fun front fs' path' hcontent' => ?_,
    fun count fs' path' hcontent' => ?_, fun honly count fs' path' hcontent' => ?_⟩
  · obtain ⟨fs'', place, happly, hserves⟩ := load_apply hcontent'
    obtain ⟨a', hopened', hmoved, hfile⟩ :=
      ofContent_append hopened front path' fs'.openFiles.length
    rw [hopened', mapError_ok] at happly
    rw [← hfile] at hserves
    exact ⟨a', fs'', place, happly, hserves, Format.isLast_append.mpr hformat.last, hmoved,
      fun r now now' here there hnow hnow' => ⟨hmoved.stream hnow hnow' r,
        hmoved.payload hnow hnow' r⟩⟩
  · rw [exists_load_iff hcontent', format_drop_iff hopened hformat]
  · rw [exists_load_iff hcontent', format_take_iff hformat honly]

/-- A container with one entry. -/
def framedPacking : Packing := ⟨311, "lib.so", [.plain .data "a" [7]]⟩

/-- A file that holds it, with two bytes in front of it and one behind it. -/
def framed : Bytes := [1, 2] ++ framedPacking.bytes ++ [0]

/-- The general statement for a container in the middle of its file. -/
theorem load_after_cuts_framed :
    (holding framed).content ⟨"/a"⟩ = .ok framed ∧
    ∃ a, ((load ⟨"/a"⟩).apply (holding framed)).1 = .ok a ∧ a.baseOffset = 2 ∧
      (∀ front, ∃ a', ((load ⟨"/a"⟩).apply (holding (front ++ framed))).1 = .ok a' ∧
        a'.baseOffset = front.length + 2 ∧ a'.entries = a.entries) ∧
      (∀ count, (∃ a', ((load ⟨"/a"⟩).apply (holding (framed.drop count))).1 = .ok a') ↔
        count ≤ 2) ∧
      ∀ count, (∃ a', ((load ⟨"/a"⟩).apply
        (holding (framed.take (framed.length - count)))).1 = .ok a') ↔ count ≤ 1 := by
  have hlast : Scan.IsLast Cookie.magic framed (framedPacking.cookieAt [1, 2]) :=
    (Scan.lastIn_eq_some_iff (by decide)).mp (by decide +kernel)
  have honly : ∀ i < framed.length, Cookie.magic.isPrefixOf (framed.drop i) = true →
      i = framedPacking.cookieAt [1, 2] := by
    decide +kernel
  have hfaithful : ∀ e ∈ framedPacking.entries, e.IsFaithful := by
    intro e he
    obtain rfl := List.mem_singleton.mp he
    exact ⟨by decide, rfl⟩
  have hafter : framed.length - (framedPacking.cookieAt [1, 2] + Cookie.size) = 1 := by
    decide +kernel
  obtain ⟨needed, hopened⟩ := @Packing.ofContent_eq ⟨"/a"⟩ [1, 2] [0] framedPacking (by decide)
    (by decide) hfaithful (by decide +kernel) hlast.greatest 0
  have hload := (load_eq_ok (content_holding framed)).mpr hopened
  obtain ⟨position, hposition, hfront, hdrop, htake⟩ :=
    load_after_cuts (content_holding framed) hload
  cases hposition.unique hlast
  refine ⟨content_holding framed, _, hload, rfl, fun front => ?_,
    fun count => hdrop count _ _ (content_holding _), fun count => ?_⟩
  · obtain ⟨a', fs', place, happly, -, -, hmoved, -⟩ := hfront front _ _ (content_holding _)
    exact ⟨a', congrArg Prod.fst happly, hmoved.baseOffset, hmoved.entries⟩
  · rw [← hafter]
    refine htake (fun i hi => honly i ?_ (List.isPrefixOf_iff_prefix.mpr hi)) count _ _
      (content_holding _)
    have := hi.length_le (by decide)
    have : Cookie.magic.length = 8 := rfl
    omega

end Archive
end Stowage
