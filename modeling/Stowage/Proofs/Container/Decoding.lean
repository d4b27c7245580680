import Stowage.Container.Payload
import Stowage.Proofs.Zlib.Stored
import Stowage.Proofs.Zlib.Stream

/-!
# What payloads decode to

A stored payload is copied, chunk by chunk, as far as it is there.  A compressed payload
is decoded by a decoder that is called chunk by chunk.

Whatever the decoder does, this ends: each call takes some of the chunk, gives some of
the declared output, or is the last one for its chunk.  The number of calls is bounded
accordingly, and no more is read and written than the lengths allow (`inflate_bounded`).

If the decoder is correct, decoding chunk by chunk is decoding in one piece, however the
stream is cut and however the decoder splits its work (`inflate_eq_decode`).
-/

namespace Stowage.Payload

variable {source : Bytes}

/-! ## Stored payloads -/

theorem copyChunks_eq {left : Nat} (h : left ≤ source.length) :
    (copyChunks source left).output = source.take left ∧
      (copyChunks source left).result.toOption.isSome = true := by
  induction left using Nat.strongRecOn generalizing source with
  | ind left ih =>
    rw [copyChunks]
    by_cases hzero : left = 0
    · rw [dif_pos hzero, hzero]
      exact ⟨rfl, rfl⟩
    have hsize : chunkSize = 8192 := rfl
    have hlength : (source.take (min left chunkSize)).length = min left chunkSize := by
      rw [List.length_take]
      omega
    rw [dif_neg hzero]
    simp only [hlength, Nat.lt_irrefl, if_false]
    have hrest : left - min left chunkSize ≤ (source.drop (min left chunkSize)).length := by
      rw [List.length_drop]
      omega
    obtain ⟨houtput, hresult⟩ := ih (left - min left chunkSize) (by omega) hrest
    refine ⟨?_, hresult⟩
    show source.take (min left chunkSize) ++ _ = source.take left
    rw [houtput, ← List.take_add, Nat.add_sub_cancel' (Nat.min_le_left ..)]

/-- **A stored payload** is copied. -/
theorem copyStored_eq {length : Nat} (h : length ≤ source.length) :
    (copyStored source length).output = source.take length ∧
      (copyStored source length).result = .ok length := by
  obtain ⟨houtput, hresult⟩ := copyChunks_eq h
  refine ⟨houtput, ?_⟩
  rw [copyStored]
  cases hcopied : (copyChunks source length).result with
  | error fault => rw [hcopied] at hresult; cases hresult
  | ok n => rfl

/-! ## Compressed payloads -/

section Any
variable (d : Zlib.Decoder) (declared : Nat)

theorem streamEnd_eq_ok {total n : Nat} :
    streamEnd declared total = .ok n ↔ total = declared ∧ n = total := by
  rw [streamEnd]
  by_cases htotal : total = declared
  · rw [if_pos htotal, Except.ok.injEq]
    omega
  · rw [if_neg htotal]
    constructor
    · intro h
      cases h
    · intro h
      exact absurd h.1 htotal

/-- What the work on one chunk says about lengths is so. -/
theorem length_of_drainChunk (state : d.State) (chunk : Bytes) (total : Nat) :
    (∀ n, (drainChunk d declared state chunk total).ending = .finished (.ok n) →
      total + (drainChunk d declared state chunk total).output.length = declared) ∧
    ∀ state' total', (drainChunk d declared state chunk total).ending = .usedUp state' total' →
      total' = total + (drainChunk d declared state chunk total).output.length := by
  fun_induction drainChunk d declared state chunk total with
  | case1 => exact ⟨nofun, nofun⟩
  | case2 => exact ⟨nofun, nofun⟩
  | case3 state chunk total p hstep hlong hended =>
    refine ⟨fun n hend => ?_, nofun⟩
    exact ((streamEnd_eq_ok declared).mp (ChunkEnd.finished.inj hend)).1
  | case4 state chunk total p hstep hlong hended hused =>
    refine ⟨nofun, fun state' total' hend => ?_⟩
    cases hend
    rfl
  | case5 => exact ⟨nofun, nofun⟩
  | case6 state chunk total p hstep hlong hended hused hstalled ih =>
    obtain ⟨hfinished, husedUp⟩ := ih
    refine ⟨fun n hend => ?_, fun state' total' hend => ?_⟩
    · have := hfinished n hend
      show total + (p.output ++ _).length = declared
      rwa [List.length_append, ← Nat.add_assoc]
    · have := husedUp state' total' hend
      show total' = total + (p.output ++ _).length
      rwa [List.length_append, ← Nat.add_assoc]

theorem length_of_inflateChunks {n : Nat} (state : d.State) (source : Bytes) (left total : Nat)
    (h : (inflateChunks d declared state source left total).result = .ok n) :
    total + (inflateChunks d declared state source left total).output.length = declared := by
  induction left using Nat.strongRecOn generalizing source state total with
  | ind left ih =>
    have hsize : chunkSize = 8192 := rfl
    rw [inflateChunks] at h ⊢
    by_cases hzero : left = 0
    · rw [dif_pos hzero] at h
      cases h
    rw [dif_neg hzero] at h ⊢
    obtain ⟨hfinished, husedUp⟩ := length_of_drainChunk d declared state
      (source.take (min left chunkSize)) total
    dsimp only at h ⊢
    split at h
    · cases h
    rename_i hfull
    rw [if_neg hfull]
    cases hend : (drainChunk d declared state (source.take (min left chunkSize)) total).ending with
    | finished result =>
      rw [hend] at h
      cases h
      exact hfinished n hend
    | usedUp state' total' =>
      rw [hend] at h
      dsimp only
      have htotal := husedUp state' total' hend
      subst htotal
      have := ih (left - min left chunkSize) (by omega) state' _ _ h
      show total + (_ ++ Decoding.output _).length = declared
      rwa [List.length_append, ← Nat.add_assoc]

/-- **A decoding that succeeds** has given as many bytes as were declared. -/
theorem length_of_inflate_ok {source : Bytes} {length n : Nat}
    (h : (inflate d source length declared).result = .ok n) :
    (inflate d source length declared).output.length = declared := by
  rw [inflate] at h ⊢
  split at h
  · cases h
  · rename_i hzero
    rw [if_neg hzero]
    have := length_of_inflateChunks d declared d.start source length 0 h
    omega

/-- The work on one chunk keeps to the declared length.  Every call but the last takes or
gives a byte. -/
theorem drainChunk_within (state : d.State) (chunk : Bytes) (total : Nat)
    (htotal : total ≤ declared) :
    total + (drainChunk d declared state chunk total).output.length ≤ declared ∧
      (drainChunk d declared state chunk total).calls ≤
        chunk.length + (drainChunk d declared state chunk total).output.length + 1 := by
  fun_induction drainChunk d declared state chunk total with
  | case1 | case2 => exact ⟨htotal, Nat.le_add_left ..⟩
  | case3 state chunk total p hstep hlong | case4 state chunk total p hstep hlong
  | case5 state chunk total p hstep hlong =>
    exact ⟨Nat.le_of_not_lt hlong, Nat.le_add_left ..⟩
  | case6 state chunk total p hstep hlong hended hused hstalled ih =>
    obtain ⟨houtput, hcalls⟩ := ih (Nat.le_of_not_lt hlong)
    have hread := p.read_le
    rw [List.length_drop] at hcalls
    refine ⟨?_, ?_⟩
    · show total + (p.output ++ _).length ≤ declared
      rw [List.length_append]
      omega
    · show _ + 1 ≤ chunk.length + (p.output ++ _).length + 1
      rw [List.length_append]
      omega

/-- The number of chunks in which some bytes are read. -/
def chunkCount (length : Nat) : Nat := (length + (chunkSize - 1)) / chunkSize

theorem inflateChunks_within (state : d.State) (source : Bytes) (left total : Nat)
    (htotal : total ≤ declared) :
    total + (inflateChunks d declared state source left total).output.length ≤ declared ∧
      (inflateChunks d declared state source left total).read ≤ left ∧
      (inflateChunks d declared state source left total).calls ≤ left +
        (inflateChunks d declared state source left total).output.length + chunkCount left := by
  induction left using Nat.strongRecOn generalizing source state total with
  | ind left ih =>
    have hsize : chunkSize = 8192 := rfl
    rw [inflateChunks]
    by_cases hzero : left = 0
    · rw [dif_pos hzero]
      exact ⟨htotal, Nat.zero_le _, Nat.zero_le _⟩
    rw [dif_neg hzero]
    dsimp only
    by_cases hshort : (source.take (min left chunkSize)).length < min left chunkSize
    · rw [if_pos hshort]
      refine ⟨htotal, ?_, Nat.zero_le _⟩
      show (source.take (min left chunkSize)).length ≤ left
      omega
    rw [if_neg hshort]
    have hchunk : (source.take (min left chunkSize)).length ≤ min left chunkSize :=
      List.length_take_le ..
    -- this chunk is one of those that are counted
    have hcount : chunkCount (left - min left chunkSize) + 1 = chunkCount left := by
      rw [chunkCount, chunkCount, hsize]
      omega
    obtain ⟨houtput, hcalls⟩ := drainChunk_within d declared state
      (source.take (min left chunkSize)) total htotal
    have hlength := length_of_drainChunk d declared state (source.take (min left chunkSize)) total
    generalize drainChunk d declared state (source.take (min left chunkSize)) total = work at *
    cases hend : work.ending with
    | finished result =>
      refine ⟨houtput, Nat.min_le_left .., ?_⟩
      show work.calls ≤ left + work.output.length + chunkCount left
      omega
    | usedUp state' total' =>
      have htotal' := hlength.2 state' total' hend
      obtain ⟨houtput', hread', hcalls'⟩ := ih (left - min left chunkSize) (by omega) state'
        (source.drop (min left chunkSize)) total' (by omega)
      refine ⟨?_, ?_, ?_⟩
      · show total + (work.output ++ Decoding.output _).length ≤ declared
        rw [List.length_append]
        omega
      · show min left chunkSize + Decoding.read _ ≤ left
        omega
      · show work.calls + Decoding.calls _ ≤ left + (work.output ++ Decoding.output _).length + _
        rw [List.length_append]
        omega

/-- A decoding keeps to the lengths.  All its calls but the last on each chunk take or give
a byte. -/
theorem inflate_within (source : Bytes) (length : Nat) :
    (inflate d source length declared).output.length ≤ declared ∧
      (inflate d source length declared).read ≤ length ∧
      (inflate d source length declared).calls ≤ length +
        (inflate d source length declared).output.length + chunkCount length := by
  rw [inflate]
  by_cases hzero : length = 0
  · rw [if_pos hzero]
    exact ⟨Nat.zero_le _, Nat.zero_le _, Nat.zero_le _⟩
  · rw [if_neg hzero]
    have hwithin := inflateChunks_within d declared d.start source length 0 (Nat.zero_le _)
    rwa [Nat.zero_add] at hwithin

/-- **Decoding ends, whatever the decoder does**: after no more calls than there are bytes
to take, bytes to give and chunks to read, and without reading or writing more than the
lengths allow. -/
theorem inflate_bounded (source : Bytes) (length : Nat) :
    (inflate d source length declared).calls ≤ length + declared + length / chunkSize + 3 ∧
      (inflate d source length declared).read ≤ length ∧
      (inflate d source length declared).output.length ≤ declared := by
  obtain ⟨houtput, hread, hcalls⟩ := inflate_within d declared source length
  have hcount : chunkCount length ≤ length / chunkSize + 1 := by
    rw [chunkCount, show chunkSize = 8192 from rfl]
    omega
  exact ⟨by omega, hread, houtput⟩

end Any

/-! ## Decoding in one piece -/

section Correct
variable {d : Zlib.Decoder} {declared : Nat}

open Zlib (decode Yields)

/-- What has been given is a part of what the input taken decodes to. -/
theorem isPrefix_of_reaches (hd : d.DecodesZlib) {state : d.State} {taken given : Bytes}
    (h : d.Reaches state taken given) : given <+: (decode taken).output := by
  cases h with
  | start => exact List.nil_prefix
  | call h hroom hstep _ => exact hd.gives h hroom hstep

/-- The work on a chunk, measured by decoding in one piece what had been taken before and
the chunk. -/
structure Follows (d : Zlib.Decoder) (declared : Nat) (taken given chunk : Bytes)
    (work : ChunkWork d.State) : Prop where
  written : given ++ work.output <+: (decode (taken ++ chunk)).output
  succeeds : ∀ n, work.ending = .finished (.ok n) → n = declared ∧
    decode (taken ++ chunk) = ⟨.complete, given ++ work.output⟩ ∧
    (given ++ work.output).length = declared
  fails : ∀ fault, work.ending = .finished (.error fault) → ∀ later,
    ¬Yields (taken ++ chunk ++ later) declared
  goesOn : ∀ state total, work.ending = .usedUp state total →
    d.Reaches state (taken ++ chunk) (given ++ work.output) ∧
    total = (given ++ work.output).length ∧ (decode (taken ++ chunk)).outcome ≠ .complete

theorem written_nil (hd : d.DecodesZlib) {state : d.State} {taken given : Bytes}
    (h : d.Reaches state taken given) (chunk : Bytes) :
    given ++ [] <+: (decode (taken ++ chunk)).output := by
  rw [List.append_nil]
  exact (isPrefix_of_reaches hd h).trans (Zlib.output_isPrefix_append ..)

/-- Some input, in the pieces in which a call takes it. -/
theorem append_take_append (taken chunk later : Bytes) (n : Nat) :
    taken ++ chunk.take n ++ (chunk.drop n ++ later) = taken ++ chunk ++ later := by
  rw [← List.append_assoc, List.append_assoc taken, List.take_append_drop]

/-- Work that fails follows what it was to decode if no stream of the declared length
begins there. -/
theorem Follows.of_error {work : ChunkWork d.State} {taken given chunk : Bytes}
    {fault : ArchiveFault} (hending : work.ending = .finished (.error fault))
    (hwritten : given ++ work.output <+: (decode (taken ++ chunk)).output)
    (hfails : ∀ later, ¬Yields (taken ++ chunk ++ later) declared) :
    Follows d declared taken given chunk work := by
  refine ⟨hwritten, ?_, fun _ _ => hfails, ?_⟩
  · intro n hend
    rw [hending] at hend
    cases hend
  · intro state total hend
    rw [hending] at hend
    cases hend

/-- Work that comes to the end of a stream follows what it was to decode. -/
theorem Follows.of_streamEnd {work : ChunkWork d.State} {taken given chunk : Bytes}
    (hending : work.ending = .finished (streamEnd declared (given ++ work.output).length))
    (hwhole : ∀ later, decode (taken ++ chunk ++ later) = ⟨.complete, given ++ work.output⟩) :
    Follows d declared taken given chunk work := by
  have hchunk := hwhole []
  rw [List.append_nil] at hchunk
  refine ⟨?_, fun n hend => ?_, fun fault hend later hyields => ?_, fun state total hend => ?_⟩
  · exact (congrArg Zlib.Decoded.output hchunk) ▸ List.prefix_refl _
  · rw [hending] at hend
    obtain ⟨hdeclared, rfl⟩ := (streamEnd_eq_ok declared).mp (ChunkEnd.finished.inj hend)
    exact ⟨hdeclared, hchunk, hdeclared⟩
  · have hdeclared := hyields.2
    rw [hwhole later] at hdeclared
    have hok := (streamEnd_eq_ok declared).mpr ⟨hdeclared, rfl⟩
    rw [hending] at hend
    rw [ChunkEnd.finished.inj hend] at hok
    cases hok
  · rw [hending] at hend
    cases hend

/-- Work on what a call has left of a chunk is work on the chunk. -/
theorem Follows.afterCall {work : ChunkWork d.State} {taken given chunk output : Bytes} {n : Nat}
    (h : Follows d declared (taken ++ chunk.take n) (given ++ output) (chunk.drop n) work) :
    Follows d declared taken given chunk (work.afterCall output) := by
  have hwhole := append_take_append taken chunk [] n
  rw [List.append_nil, List.append_nil] at hwhole
  obtain ⟨hwritten, hsucceeds, hfails, hgoesOn⟩ := h
  rw [hwhole, List.append_assoc] at hwritten
  refine ⟨hwritten, fun n hend => ?_, fun fault hend => ?_, fun state total hend => ?_⟩
  · have := hsucceeds n hend
    rwa [hwhole, List.append_assoc] at this
  · have := hfails fault hend
    rwa [hwhole] at this
  · have := hgoesOn state total hend
    rwa [hwhole, List.append_assoc] at this

/-- **The work on one chunk.** -/
theorem follows_drainChunk (hd : d.DecodesZlib) {state : d.State} {taken given chunk : Bytes}
    {total : Nat} (h : d.Reaches state taken given) (htotal : total = given.length) :
    Follows d declared taken given chunk (drainChunk d declared state chunk total) := by
  have hroom : 0 < chunkSize := by decide
  fun_induction drainChunk d declared state chunk total generalizing taken given with
  | case1 state chunk total hstep =>
    have hcorrupt := hd.refuses h hroom hstep
    refine .of_error rfl (written_nil hd h chunk) ?_
    intro later hyields
    have hcomplete := hyields.1
    rw [Zlib.decode_append_of_corrupt hcorrupt] at hcomplete
    cases hcomplete
  | case2 state chunk total p hstep hlong =>
    refine .of_error rfl (written_nil hd h chunk) ?_
    intro later hyields
    -- what has been given is too long already, and more only makes it longer
    have hgives := (hd.gives h hroom hstep).trans
      (Zlib.output_isPrefix_append _ (chunk.drop p.read ++ later))
    rw [append_take_append taken chunk later p.read] at hgives
    have hle := hgives.length_le
    rw [hyields.2, List.length_append] at hle
    omega
  | case3 state chunk total p hstep hlong hended =>
    have hdecode := hd.ends h hroom hstep hended
    refine .of_streamEnd ?_ ?_
    · show ChunkEnd.finished (streamEnd declared (total + p.output.length)) =
        .finished (streamEnd declared (given ++ p.output).length)
      rw [List.length_append, htotal]
    · intro later
      rw [← append_take_append taken chunk later p.read, Zlib.decode_append_of_complete hdecode]
      rfl
  | case4 state chunk total p hstep hlong hended hused =>
    have hgives := hd.gives h hroom hstep
    have hreaches := h.call hroom hstep (Bool.eq_false_iff.mpr hended)
    rw [hused.1, List.take_length] at hgives hreaches
    refine ⟨hgives, nofun, nofun, fun state' total' hend => ?_⟩
    cases hend
    refine ⟨hreaches, ?_, fun hcomplete => ?_⟩
    · show total + p.output.length = (given ++ p.output).length
      rw [List.length_append, htotal]
    · exact hended (hd.finishes h hroom hstep hused.1 hused.2 hcomplete)
  | case5 state chunk total p hstep hlong hended hused hstalled =>
    have hnil : p.output = [] := List.eq_nil_of_length_eq_zero hstalled.2
    -- only a call on a chunk that is used up may do nothing
    refine absurd (hd.moves h hroom hstep ?_ hstalled.1 hnil) hended
    rintro rfl
    refine hused ⟨hstalled.1, ?_⟩
    rw [hnil]
    exact hroom
  | case6 state chunk total p hstep hlong hended hused hstalled ih =>
    have hreaches := h.call hroom hstep (Bool.eq_false_iff.mpr hended)
    exact (ih hreaches (by rw [List.length_append, htotal])).afterCall

/-- A decoding, measured by decoding in one piece what had been taken before and the
input. -/
structure Matches (declared : Nat) (taken given input : Bytes) (decoding : Decoding) : Prop where
  written : given ++ decoding.output <+: (decode (taken ++ input)).output
  succeeds : ∀ n, decoding.result = .ok n → n = declared ∧
    decode (taken ++ input) = ⟨.complete, given ++ decoding.output⟩ ∧
    (given ++ decoding.output).length = declared
  fails : ∀ fault, decoding.result = .error fault → ¬Yields (taken ++ input) declared

/-- **The work on all chunks.** -/
theorem matches_inflateChunks (hd : d.DecodesZlib) {state : d.State} {taken given source : Bytes}
    {left total : Nat} (h : d.Reaches state taken given) (htotal : total = given.length)
    (hleft : left ≤ source.length) (hopen : (decode taken).outcome ≠ .complete) :
    Matches declared taken given (source.take left)
      (inflateChunks d declared state source left total) := by
  induction left using Nat.strongRecOn generalizing source state taken given total with
  | ind left ih =>
    rw [inflateChunks]
    by_cases hzero : left = 0
    · rw [dif_pos hzero, hzero, List.take_zero]
      refine ⟨written_nil hd h [], fun n hresult => ?_, fun fault _ hyields => ?_⟩
      · cases hresult
      · rw [List.append_nil] at hyields
        exact hopen hyields.1
    have hsize : chunkSize = 8192 := rfl
    have hlength : (source.take (min left chunkSize)).length = min left chunkSize := by
      rw [List.length_take]
      omega
    have hwhole : taken ++ source.take left = taken ++ source.take (min left chunkSize) ++
        (source.drop (min left chunkSize)).take (left - min left chunkSize) := by
      rw [List.append_assoc, ← List.take_add, Nat.add_sub_cancel' (Nat.min_le_left ..)]
    have hfollows : Follows d declared taken given (source.take (min left chunkSize))
        (drainChunk d declared state (source.take (min left chunkSize)) total) :=
      follows_drainChunk hd h htotal
    obtain ⟨hwritten, hsucceeds, hfails, hgoesOn⟩ := hfollows
    rw [dif_neg hzero]
    simp only [hlength, Nat.lt_irrefl, if_false]
    generalize drainChunk d declared state (source.take (min left chunkSize)) total = work at *
    cases hend : work.ending with
    | finished result =>
      refine ⟨?_, fun n hresult => ?_, fun fault hresult => ?_⟩
      · rw [hwhole]
        exact hwritten.trans (Zlib.output_isPrefix_append ..)
      · cases hresult
        obtain ⟨hn, hdecode, hlong⟩ := hsucceeds n hend
        refine ⟨hn, ?_, hlong⟩
        rw [hwhole, Zlib.decode_append_of_complete hdecode]
      · cases hresult
        rw [hwhole]
        exact hfails fault hend _
    | usedUp state' total' =>
      obtain ⟨hreaches, htotal', hincomplete⟩ := hgoesOn state' total' hend
      have hrest : left - min left chunkSize ≤ (source.drop (min left chunkSize)).length := by
        rw [List.length_drop]
        omega
      obtain ⟨hwritten', hsucceeds', hfails'⟩ := ih (left - min left chunkSize) (by omega) hreaches
        htotal' hrest hincomplete
      rw [← hwhole, List.append_assoc] at hwritten'
      refine ⟨hwritten', fun n hresult => ?_, fun fault hresult => ?_⟩
      · have := hsucceeds' n hresult
        rwa [← hwhole, List.append_assoc] at this
      · have := hfails' fault hresult
        rwa [← hwhole] at this

/-- The work on a payload that is not empty. -/
theorem matches_inflate (hd : d.DecodesZlib) {source : Bytes} {length : Nat} (hpos : 0 < length)
    (h : length ≤ source.length) :
    Matches declared [] [] (source.take length) (inflate d source length declared) := by
  rw [inflate, if_neg (Nat.ne_of_gt hpos)]
  exact matches_inflateChunks hd .start rfl h (by simp [Zlib.decode_nil])

theorem pos_of_inflate_ok {source : Bytes} {length n : Nat}
    (h : (inflate d source length declared).result = .ok n) : 0 < length := by
  refine Nat.pos_of_ne_zero fun hzero => ?_
  rw [inflate, if_pos hzero] at h
  cases h

/-- **A compressed payload** decodes to what its stream stands for. -/
theorem inflate_eq (hd : d.DecodesZlib) {stream data : Bytes}
    (h : decode stream = ⟨.complete, data⟩) (rest : Bytes) :
    (inflate d (stream ++ rest) stream.length data.length).result = .ok data.length ∧
      (inflate d (stream ++ rest) stream.length data.length).output = data := by
  have hpos : 0 < stream.length := by
    refine List.length_pos_iff.mpr fun hnil => ?_
    have hcomplete := congrArg Zlib.Decoded.outcome h
    rw [hnil, Zlib.decode_nil] at hcomplete
    cases hcomplete
  have hmatches : Matches data.length [] [] ((stream ++ rest).take stream.length)
      (inflate d (stream ++ rest) stream.length data.length) :=
    matches_inflate hd hpos (by rw [List.length_append]; omega)
  rw [List.take_left] at hmatches
  cases hresult : (inflate d (stream ++ rest) stream.length data.length).result with
  | ok n =>
    obtain ⟨hn, hdecode, -⟩ := hmatches.succeeds n hresult
    have heq := hdecode.symm.trans h
    exact ⟨congrArg Except.ok hn, congrArg Zlib.Decoded.output heq⟩
  | error fault =>
    have hyields : Yields stream data.length := by
      rw [Yields, h]
      exact ⟨rfl, rfl⟩
    exact absurd hyields (hmatches.fails fault hresult)

/-- **Decoding chunk by chunk is decoding in one piece.**  It succeeds exactly if there is
some input and it holds a whole stream of the declared length; what follows the stream
makes no difference.  Then it has written what the stream stands for.  Otherwise it has
written the start of what can be decoded, and no more than declared. -/
theorem inflate_eq_decode (hd : d.DecodesZlib) (declared : Nat) {source : Bytes} {length : Nat}
    (h : length ≤ source.length) :
    ((∃ n, (inflate d source length declared).result = .ok n) ↔
      0 < length ∧ (decode (source.take length)).outcome = .complete ∧
        (decode (source.take length)).output.length = declared) ∧
    (∀ n, (inflate d source length declared).result = .ok n → n = declared ∧
      (inflate d source length declared).output = (decode (source.take length)).output) ∧
    (inflate d source length declared).output <+: (decode (source.take length)).output ∧
    (inflate d source length declared).output.length ≤ declared ∧
    ∀ stream data, stream <+: source.take length → decode stream = ⟨.complete, data⟩ →
      decode (source.take length) = ⟨.complete, data⟩ := by
  have hwithin := (inflate_within d declared source length).1
  refine ⟨⟨?_, ?_⟩, fun n hresult => ?_, ?_, hwithin, fun stream data hstream hdata => ?_⟩
  · rintro ⟨n, hresult⟩
    have hpos := pos_of_inflate_ok hresult
    obtain ⟨-, hdecode, hlength⟩ := (matches_inflate hd hpos h).succeeds n hresult
    rw [List.nil_append] at hdecode hlength
    rw [hdecode]
    exact ⟨hpos, rfl, hlength⟩
  · rintro ⟨hpos, hyields⟩
    cases hresult : (inflate d source length declared).result with
    | ok n => exact ⟨n, rfl⟩
    | error fault => exact absurd hyields ((matches_inflate hd hpos h).fails fault hresult)
  · obtain ⟨hn, hdecode, -⟩ :=
      (matches_inflate hd (pos_of_inflate_ok hresult) h).succeeds n hresult
    exact ⟨hn, (congrArg Zlib.Decoded.output hdecode).symm⟩
  · by_cases hzero : length = 0
    · rw [inflate, if_pos hzero]
      exact List.nil_prefix
    · exact (matches_inflate hd (Nat.pos_of_ne_zero hzero) h).written
  · obtain ⟨later, hlater⟩ := hstream
    rw [← hlater, Zlib.decode_append_of_complete hdata]

/-- A stream that stands for more than two chunks, with two bytes behind it. -/
def trailedStream : Bytes := Zlib.encode (List.replicate 20000 97) ++ [1, 2]

/-- The general statement for the zlib decoder and a stream with something behind it. -/
theorem inflate_eq_decode_trailedStream :
    Zlib.Decoder.zlib.DecodesZlib ∧ trailedStream.length ≤ (trailedStream ++ [3]).length ∧
    (∃ n, (inflate .zlib (trailedStream ++ [3]) trailedStream.length 20000).result = .ok n) ∧
    (inflate .zlib (trailedStream ++ [3]) trailedStream.length 20000).output =
      List.replicate 20000 97 := by
  have hlong : trailedStream.length ≤ (trailedStream ++ [3]).length := by
    rw [List.length_append]
    exact Nat.le_add_right ..
  have hpos : 0 < trailedStream.length := by
    rw [trailedStream, List.length_append]
    exact Nat.succ_pos _
  obtain ⟨hiff, hok, -, -, hfollowed⟩ := inflate_eq_decode Zlib.decodesZlib_zlib 20000 hlong
  have hdecode : decode ((trailedStream ++ [3]).take trailedStream.length) =
      ⟨.complete, List.replicate 20000 97⟩ := by
    refine hfollowed (Zlib.encode (List.replicate 20000 97)) _ ?_
      (Zlib.decode_of_finishes (Zlib.decodes_encode _))
    rw [List.take_left, trailedStream]
    exact List.prefix_append ..
  rw [hdecode] at hiff hok
  obtain ⟨n, hresult⟩ := hiff.mpr ⟨hpos, rfl, List.length_replicate⟩
  exact ⟨Zlib.decodesZlib_zlib, hlong, ⟨n, hresult⟩, (hok n hresult).2⟩

end Correct
end Stowage.Payload
