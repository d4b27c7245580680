import Stowage.Container.Error
import Stowage.Zlib.Decoder
/-!
# Decoding payloads

A payload is stored as it is or as a zlib stream. Either way it is read and written in chunks of
8192 bytes. `Decoding` keeps what has been written even when decoding fails, since a file that is
being written holds it by then.

Decoding a stream is defined for any streaming decoder, even one that breaks its promises; it ends
because each call either takes some of the chunk, gives some of the declared output, or is the last
one.
-/

namespace Stowage

/-- What decoding a payload has done, successful or not. -/
structure Decoding where
  /-- The bytes written. -/
  output : Bytes
  /-- How many bytes have been read from the source. -/
  read : Nat
  /-- How often the decoder has been called. -/
  calls : Nat
  /-- The length of the output, or what went wrong. -/
  result : Except ArchiveFault Nat
  deriving Repr

namespace Decoding

/-- A decoding that fails before it begins. -/
def failed (fault : ArchiveFault) : Decoding := ⟨[], 0, 0, .error fault⟩

/-- A decoding that continues after some output, some bytes read and some calls. -/
def after (output : Bytes) (read calls : Nat) (d : Decoding) : Decoding :=
  ⟨output ++ d.output, read + d.read, calls + d.calls, d.result⟩

end Decoding

namespace Payload

/-- The size of the chunks that are read and written. -/
def chunkSize : Nat := 8192

/-- Copies stored bytes chunk by chunk. A chunk that is not there in full is not written. -/
def copyChunks (source : Bytes) (left : Nat) : Decoding :=
  if _h : left = 0 then ⟨[], 0, 0, .ok 0⟩
  else
    let want := min left chunkSize
    let chunk := source.take want
    if chunk.length < want then
      ⟨[], chunk.length, 0, .error (.truncated .payloadEndsEarly)⟩
    else (copyChunks (source.drop want) (left - want)).after chunk want 0
  termination_by left
  decreasing_by
    have hc : chunkSize = 8192 := rfl
    omega

/-- Copies stored bytes. -/
def copyStored (source : Bytes) (length : Nat) : Decoding :=
  let copied := copyChunks source length
  { copied with result := copied.result.map fun _ => length }

/-- How the work on one chunk of input ends. -/
inductive ChunkEnd (σ : Type) where
  /-- The chunk is used up, and `total` bytes have been written so far. -/
  | usedUp (state : σ) (total : Nat)
  | finished (result : Except ArchiveFault Nat)

/-- What the work on one chunk of input has done. -/
structure ChunkWork (σ : Type) where
  output : Bytes
  calls : Nat
  ending : ChunkEnd σ

namespace ChunkWork

/-- Work that ends with the call just made. -/
def last {σ : Type} (output : Bytes) (ending : ChunkEnd σ) : ChunkWork σ := ⟨output, 1, ending⟩

/-- Work that continues after one call. -/
def afterCall {σ : Type} (output : Bytes) (w : ChunkWork σ) : ChunkWork σ :=
  ⟨output ++ w.output, w.calls + 1, w.ending⟩

end ChunkWork

/-- The result of a stream that has come to its end after `total` bytes. -/
def streamEnd (declared total : Nat) : Except ArchiveFault Nat :=
  if total = declared then .ok total else .error (.inflate (.wrongLength total declared))

/-- Calls the decoder on a chunk until the chunk is used up or decoding ends. More output than
declared is an error and is not written. A call that neither takes nor gives anything is an error,
unless the chunk is used up. -/
def drainChunk (decoder : Zlib.Decoder) (declared : Nat) (state : decoder.State) (chunk : Bytes)
    (total : Nat) : ChunkWork decoder.State :=
  match decoder.step state chunk chunkSize with
  | none => .last [] (.finished (.error (.inflate .corrupt)))
  | some p =>
    -- the output of this call is dropped as a whole, not cut
    if declared < total + p.output.length then
      .last [] (.finished (.error (.inflate (.tooLong declared))))
    else if p.ended then
      .last p.output (.finished (streamEnd declared (total + p.output.length)))
    -- when the room is full, more output may be waiting although the input is used up
    else if p.read = chunk.length ∧ p.output.length < chunkSize then
      .last p.output (.usedUp p.state (total + p.output.length))
    else if p.read = 0 ∧ p.output.length = 0 then
      .last p.output (.finished (.error (.inflate .stalled)))
    else
      (drainChunk decoder declared p.state (chunk.drop p.read)
        (total + p.output.length)).afterCall p.output
  termination_by chunk.length + (declared - total)
  decreasing_by
    have hr := p.read_le
    simp only [List.length_drop]
    omega

/-- Reads and decodes chunk after chunk. -/
def inflateChunks (decoder : Zlib.Decoder) (declared : Nat) (state : decoder.State)
    (source : Bytes) (left total : Nat) : Decoding :=
  if _h : left = 0 then .failed (.inflate .exhausted)
  else
    let want := min left chunkSize
    let chunk := source.take want
    if chunk.length < want then
      ⟨[], chunk.length, 0, .error (.truncated .payloadEndsEarly)⟩
    else
      let work := drainChunk decoder declared state chunk total
      match work.ending with
      | .finished result => ⟨work.output, want, work.calls, result⟩
      | .usedUp state total =>
        (inflateChunks decoder declared state (source.drop want) (left - want) total).after
          work.output want work.calls
  termination_by left
  decreasing_by
    have hc : chunkSize = 8192 := rfl
    omega

/-- Decodes the stream in the first `length` bytes, which has to give exactly `declared` bytes.
What follows the end of the stream is not looked at. -/
def inflate (decoder : Zlib.Decoder) (source : Bytes) (length declared : Nat) : Decoding :=
  if length = 0 then .failed (.inflate .noData)
  else inflateChunks decoder declared decoder.start source length 0

end Payload

end Stowage
