import Stowage.Proofs.Unpack.Outcome

/-!
# Where payloads are read

A record says where the payload of its entry stands, in two numbers that can be anything.  The
file bounds what they can do (`Archive.payload_stays_inside`): nothing is read behind the end of
the payload, and a payload that goes beyond the end of the file is not read at all, which is told
as such.

The bound is the end of the file, and not the end of the container.  Where something follows the
container, a payload can reach into it (`Archive.payload_leaves_container`).
-/

namespace Stowage

open FileSystem Result

variable {fs fs' fs₀ fs₁ : FileSystem} {path dir x : Path} {a : Archive} {r : Record}
  {policy : UnpackPolicy} {fault : ArchiveFault} {source : Bytes}

/-! ## What is read -/

namespace Payload

/-- Copying reads no more than it is told to. -/
theorem copyChunks_read_le (source : Bytes) (left : Nat) :
    (copyChunks source left).read ≤ left := by
  fun_induction copyChunks source left with
  | case1 => exact Nat.le_refl 0
  | case2 source left hleft want chunk hshort =>
    exact Nat.le_trans (Nat.le_of_lt hshort) (Nat.min_le_left ..)
  | case3 source left hleft want chunk hfull ih =>
    have hwant : want ≤ left := Nat.min_le_left ..
    show want + (copyChunks (source.drop want) (left - want)).read ≤ left
    omega

end Payload

namespace Archive

section

variable [Zlib.Inflater]

/-- **Nothing is read behind a payload.** -/
theorem decoding_read_le (a : Archive) (r : Record) (fs : FileSystem) :
    (a.decoding r fs).read ≤ r.storedLength.toNat := by
  rw [decoding]
  split
  · exact Nat.zero_le _
  rw [decodeFrom]
  split
  · exact (Payload.inflate_within _ _ _ _).2.1
  · exact Payload.copyChunks_read_le _ _

/-! ## The place of a container -/

/-- Where the container of an archive ends in its file. -/
def containerStop (a : Archive) : Nat := a.baseOffset + a.cookie.containerLength.toNat

omit [Zlib.Inflater] in
/-- A container that has been opened lies in its file. -/
theorem containerStop_le_of_load (h : ((load path).apply fs).1 = .ok a) :
    ∃ content, fs.content path = .ok content ∧ a.fileLength = content.length ∧
      a.containerStop ≤ content.length := by
  obtain ⟨content, hcontent⟩ := content_of_load h
  have hopened := (load_eq_ok hcontent).mp h
  obtain ⟨position, hlast, hwhole, -, -, -, -, -, -, -, hlength⟩ := ofContent_eq_ok.mp hopened
  have hstop := (ofContent_sound hopened hlast).1
  exact ⟨content, hcontent, hlength, by rw [containerStop, hstop]; exact hwhole⟩

/-! ## Payloads inside a file -/

/-- The report of a payload that ends behind the file. -/
def beyond (a : Archive) (r : Record) : ArchiveFault :=
  .truncated (.payloadBeyondFile (a.payloadStart r) (a.payloadStop r) a.fileLength)

theorem decoding_of_beyond (h : a.fileLength < a.payloadStop r) (fs : FileSystem) :
    a.decoding r fs = .failed (a.beyond r) := if_pos h

/-- A payload that decodes does not end behind the file. -/
theorem payloadStop_le_of_decoding {count : Nat} (h : (a.decoding r fs).result = .ok count) :
    a.payloadStop r ≤ a.fileLength := by
  refine Nat.le_of_not_lt fun hbeyond => ?_
  rw [decoding_of_beyond hbeyond] at h
  cases h

/-- **The payload of an entry is extracted**, to a writer, to memory or to the disk. -/
inductive Extracts (a : Archive) (r : Record) (fs : FileSystem) : Prop
  | toWriter {d : Decoding} {count : Nat} :
      ((a.stream r : Call ArchiveError Decoding).apply fs).1 = .ok d → d.result = .ok count →
        Extracts a r fs
  | toMemory {bytes : Bytes} : ((a.payload r).apply fs).1 = .ok bytes → Extracts a r fs
  | toDisk {dir x : Path} {policy : UnpackPolicy} :
      ((a.unpack r dir policy).apply fs).1 = .ok x → Extracts a r fs

/-- An entry is extracted only if its payload decodes. -/
theorem Extracts.decodes (h : a.Extracts r fs) (hwf : fs.WellFormed) (hopen : fs.HasOpen a.file) :
    ∃ count, (a.decoding r fs).result = .ok count := by
  cases h with
  | toWriter hstream hresult =>
    rw [stream_result] at hstream
    cases hstream
    exact ⟨_, hresult⟩
  | toMemory hpayload =>
    obtain ⟨count, hresult, -⟩ := payload_eq_ok.mp hpayload
    exact ⟨count, hresult⟩
  | @toDisk dir x policy hunpack =>
    have houtcome := a.unpack_outcome hwf r dir policy
    unfold Call.Ensures at houtcome
    rw [hunpack] at houtcome
    obtain ⟨-, -, fs₂, hready, hwritten⟩ := houtcome
    obtain ⟨bytes, -, -, hpayload, -⟩ := hwritten.delivers hready hopen
    obtain ⟨count, hresult, -⟩ := payload_eq_ok.mp hpayload
    exact ⟨count, hresult⟩

/-- **What is extracted lies in the file.** -/
theorem Extracts.payloadStop_le (h : a.Extracts r fs) (hwf : fs.WellFormed)
    (hopen : fs.HasOpen a.file) : a.payloadStop r ≤ a.fileLength :=
  let ⟨_, hresult⟩ := h.decodes hwf hopen
  payloadStop_le_of_decoding hresult

/-! ## Payloads that go beyond the file -/

/-- **An entry is turned down**, with nothing written, for the place of its payload.  It is not
unpacked either, be it for that or for a reason that comes first. -/
structure TurnsDown (a : Archive) (r : Record) (fs : FileSystem) : Prop where
  toWriter : (a.stream r : Call ArchiveError Decoding).apply fs = (.ok (.failed (a.beyond r)), fs)
  toMemory : (a.payload r).apply fs = (.error ⟨some r.name, a.beyond r⟩, fs)
  toDisk : ∀ dir policy, ∃ e fs', (a.unpack r dir policy).apply fs = (.error e, fs') ∧
    e.entry = some r.name ∧ Undone fs dir r.name fs' ∧
    (e.fault = a.beyond r ∨ e.fault.isRefusal = true ∨ ∃ cause, e.fault = .io cause)

/-- What cannot be decoded for the place of its payload cannot be written for that. -/
theorem WriteFault.eq_beyond (h : a.WriteFault r fault) (hbeyond : a.fileLength < a.payloadStop r) :
    fault = a.beyond r ∨ ∃ cause, fault = .io cause := by
  cases h with
  | io cause => exact .inr ⟨cause, rfl⟩
  | payload hfault =>
    rw [decoding_of_beyond hbeyond] at hfault
    cases hfault
    exact .inl rfl
  | notText _ hresult => exact absurd hbeyond (Nat.not_lt.mpr (payloadStop_le_of_decoding hresult))
  | leaves _ _ hresult => exact absurd hbeyond (Nat.not_lt.mpr (payloadStop_le_of_decoding hresult))

theorem Fails.fault_of_beyond (h : a.Fails r dir policy fs fault fs')
    (hbeyond : a.fileLength < a.payloadStop r) :
    fault = a.beyond r ∨ fault.isRefusal = true ∨ ∃ cause, fault = .io cause := by
  cases h with
  | kind => exact .inr (.inl rfl)
  | name => exact .inr (.inl rfl)
  | unready _ hfault =>
    obtain rfl | rfl | ⟨cause, rfl⟩ := hfault
    · exact .inr (.inl rfl)
    · exact .inr (.inl rfl)
    · exact .inr (.inr ⟨cause, rfl⟩)
  | unwritten _ _ hfault => exact (hfault.eq_beyond hbeyond).imp_right .inr

/-- **An entry whose payload ends behind the file** is turned down. -/
theorem turnsDown_of_beyond (hbeyond : a.fileLength < a.payloadStop r) (hwf : fs.WellFormed)
    (hopen : fs.HasOpen a.file) : a.TurnsDown r fs := by
  have hstream : (a.stream r : Call ArchiveError Decoding).apply fs =
      (.ok (.failed (a.beyond r)), fs) := by
    rw [stream, if_pos hbeyond]
    rfl
  refine ⟨hstream, ?_, fun dir policy => ?_⟩
  · rw [payload, Call.apply_bind, hstream]
    rfl
  · have houtcome := a.unpack_outcome hwf r dir policy
    unfold Call.Ensures at houtcome
    rcases happly : (a.unpack r dir policy).apply fs with ⟨e | x, fs'⟩
    · rw [happly] at houtcome
      obtain ⟨hentry, hfails⟩ := houtcome
      exact ⟨e, fs', rfl, hentry, hfails.undone hwf, hfails.fault_of_beyond hbeyond⟩
    · have hextracts : a.Extracts r fs := .toDisk (congrArg Prod.fst happly)
      exact absurd (hextracts.payloadStop_le hwf hopen) (Nat.not_le_of_lt hbeyond)

/-- **Payloads are read inside the file.**  A container that has been opened lies in its file,
and nothing is read behind the end of a payload.  A payload that is extracted lies in the file
from where the container starts; it does not leave the container either, unless something follows
that.  An entry whose payload goes beyond the file is turned down, with nothing written. -/
theorem payload_stays_inside (hload : (load path).apply fs₀ = (.ok a, fs₁)) (hwf : fs.WellFormed)
    (hopen : fs.HasOpen a.file) (r : Record) :
    (∃ content, fs₀.content path = .ok content ∧ a.fileLength = content.length ∧
      a.containerStop ≤ content.length) ∧
    (∀ d fs', (a.stream r : Call ArchiveError Decoding).apply fs = (.ok d, fs') →
      a.payloadStart r + d.read ≤ a.payloadStop r) ∧
    (a.Extracts r fs → a.baseOffset ≤ a.payloadStart r ∧ a.payloadStop r ≤ a.fileLength ∧
      (a.payloadStop r ≤ a.containerStop ∨ a.containerStop < a.fileLength)) ∧
    (a.fileLength < a.payloadStop r → a.TurnsDown r fs) := by
  have hinside := containerStop_le_of_load (congrArg Prod.fst hload)
  refine ⟨hinside, fun d fs' hstream => ?_, fun hextracts => ?_, fun hbeyond =>
    turnsDown_of_beyond hbeyond hwf hopen⟩
  · have hd := stream_result (ε := ArchiveError) a r fs
    rw [hstream] at hd
    cases hd
    exact Nat.add_le_add_left (decoding_read_le a r fs) _
  · obtain ⟨content, -, hlength, hstop⟩ := hinside
    have hle := hextracts.payloadStop_le hwf hopen
    exact ⟨Nat.le_add_right .., hle, by omega⟩

end

/-- A file with a container of one entry, which is all table and cookie.  The payload is said to
start with the container, and to be longer than it.  Something may follow. -/
def overlong (kind : EntryKind) (stored : UInt32) (after : Bytes) : FileSystem :=
  let table := ({ (PackedEntry.plain kind "x" []).record 0 with storedLength := stored }).encode
  let length := (table.length + Cookie.size).toUInt32
  holding (table ++ Cookie.encode ⟨length, 0, table.length.toUInt32, 311, "lib.so"⟩ ++ after)

/-- The general statement for a payload that is longer than its file. -/
theorem payload_stays_inside_overlong : ∃ a files r,
    (load ⟨"/a"⟩).apply (overlong .data 200 []) = (.ok a, files) ∧ a.records = [r] ∧
      a.containerStop = a.fileLength ∧ a.payloadStop r = 200 ∧
      (a.payload r).apply files =
        (.error ⟨some "x", .truncated (.payloadBeyondFile 0 200 122)⟩, files) := by
  obtain ⟨a, files, hload, hwf, hstop, hlong, hlength, hrecords⟩ : ∃ a files,
      (load ⟨"/a"⟩).apply (overlong .data 200 []) = (.ok a, files) ∧ files.WellFormed ∧
        a.containerStop = 122 ∧ a.fileLength = 122 ∧ a.records.length = 1 ∧
        ∀ r ∈ a.records, r.name = "x" ∧ a.payloadStart r = 0 ∧ a.payloadStop r = 200 := by
    decide +kernel
  obtain ⟨r, hr⟩ := List.length_eq_one_iff.mp hlength
  obtain ⟨hname, hstart, hend⟩ := hrecords r (by simp [hr])
  obtain ⟨-, -, -, hturnsDown⟩ := payload_stays_inside hload hwf (hasOpen_of_load hload) r
  have hpayload := (hturnsDown (by omega)).toMemory
  rw [beyond, hname, hstart, hend, hlong] at hpayload
  exact ⟨a, files, r, hload, hr, hstop.trans hlong.symm, hend, hpayload⟩

/-- **A payload can leave its container**, where something follows that.  And an entry that is not
unpacked is refused for its kind, even if its payload goes beyond the file. -/
theorem payload_leaves_container :
    (∃ a files r bytes, (load ⟨"/a"⟩).apply (overlong .data 200 (List.replicate 100 7)) =
        (.ok a, files) ∧ a.records = [r] ∧ a.containerStop < a.payloadStop r ∧
      ((a.payload r).apply files).1 = .ok bytes ∧ bytes.length = 200 ∧
      ((a.unpack r ⟨"/"⟩ ⟨true⟩).apply files).1 = .ok ⟨"/x"⟩) ∧
    ∃ a files r, (load ⟨"/a"⟩).apply (overlong .runtimeOption 200 []) = (.ok a, files) ∧
      a.records = [r] ∧ a.fileLength < a.payloadStop r ∧
      ((a.unpack r ⟨"/"⟩ ⟨true⟩).apply files).1 = .error ⟨some "x", .notExtractable 'o'⟩ := by
  constructor
  · obtain ⟨a, files, hload, hlength, hrecords⟩ : ∃ a files,
        (load ⟨"/a"⟩).apply (overlong .data 200 (List.replicate 100 7)) = (.ok a, files) ∧
          a.records.length = 1 ∧ ∀ r ∈ a.records, a.containerStop < a.payloadStop r ∧
            ((a.payload r).apply files).1.toOption.map List.length = some 200 ∧
            ((a.unpack r ⟨"/"⟩ ⟨true⟩).apply files).1 = .ok ⟨"/x"⟩ := by
      decide +kernel
    obtain ⟨r, hr⟩ := List.length_eq_one_iff.mp hlength
    obtain ⟨hleaves, hpayload, hunpack⟩ := hrecords r (by simp [hr])
    cases hbytes : ((a.payload r).apply files).1 with
    | error e =>
      rw [hbytes] at hpayload
      cases hpayload
    | ok bytes =>
      rw [hbytes] at hpayload
      exact ⟨a, files, r, bytes, hload, hr, hleaves, hbytes, Option.some.inj hpayload, hunpack⟩
  · obtain ⟨a, files, hload, hlength, hrecords⟩ : ∃ a files,
        (load ⟨"/a"⟩).apply (overlong .runtimeOption 200 []) = (.ok a, files) ∧
          a.records.length = 1 ∧ ∀ r ∈ a.records, a.fileLength < a.payloadStop r ∧
            ((a.unpack r ⟨"/"⟩ ⟨true⟩).apply files).1 =
              .error ⟨some "x", .notExtractable 'o'⟩ := by
      decide +kernel
    obtain ⟨r, hr⟩ := List.length_eq_one_iff.mp hlength
    obtain ⟨hbeyond, hfails⟩ := hrecords r (by simp [hr])
    exact ⟨a, files, r, hload, hr, hbeyond, hfails⟩

end Archive
end Stowage
