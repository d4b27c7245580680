import Stowage.Zlib.Machine
/-!
# Streaming decoders

A streaming decoder is called with some input and with room for some output, and takes and gives
as much as it likes of both. `Decoder` says no more than that, so what is proved of the callers
holds for any decoder; they find theirs as an `Inflater`. `Decoder.zlib` is the one for zlib streams.

The zlib decoder works ahead: it decodes until its window of 32768 bytes is full, and delivers from
there. While it delivers what it has decoded, it takes no input. When it meets an error, the bytes
decoded in the same call are not delivered.
-/

namespace Stowage.Zlib

/-- What a call of a decoder has done with the input offered and the room given. -/
structure Progress (σ : Type) (offered : Bytes) (room : Nat) where
  state : σ
  /-- How many bytes of the input have been taken. -/
  read : Nat
  output : Bytes
  /-- The stream is over and everything has been delivered. -/
  ended : Bool
  read_le : read ≤ offered.length
  output_le : output.length ≤ room

/-- A streaming decoder. A call gives no progress when the data break the format. -/
structure Decoder where
  State : Type
  start : State
  step : State → (offered : Bytes) → (room : Nat) → Option (Progress State offered room)

/-- The state of the zlib decoder: a machine and how much of its history has been delivered. -/
structure Stream where
  machine : Machine
  delivered : Nat
  deriving Inhabited

namespace Stream

/-- How far the decoder works ahead. -/
def windowSize : Nat := 32768

/-- How many decoded bytes wait to be delivered. -/
def pending (s : Stream) : Nat := s.machine.history.size - s.delivered

/-- The room left in the window when nothing is pending. -/
def windowRoom (s : Stream) : Nat := windowSize - s.delivered % windowSize

/-- Whether the stream is over and everything has been delivered. -/
def isOver (s : Stream) : Bool :=
  match s.machine.phase with
  | .ended => s.pending = 0
  | _ => false

/-- Whether the stream has broken the format. -/
def isBroken (s : Stream) : Bool :=
  match s.machine.phase with
  | .broken => true
  | _ => false

/-- Delivers as many pending bytes as there is room for. -/
def deliver (s : Stream) (room : Nat) : Stream × Bytes :=
  let count := min room s.pending
  ({ s with delivered := s.delivered + count },
    (s.machine.history.extract s.delivered (s.delivered + count)).toList)

/-- Decodes ahead and delivers, as long as there is room and input. Returns the bytes delivered
and the input left over. -/
def fill (s : Stream) (input : Bytes) (room : Nat) : Option (Stream × Bytes × Bytes) :=
  let (machine, rest) := s.machine.run s.windowRoom input
  let ahead : Stream := { s with machine }
  -- an error takes with it what the same call has decoded
  if ahead.isBroken then none
  else
    let (after, output) := ahead.deliver room
    if rest = [] || after.isOver || 0 < after.pending then some (after, output, rest)
    else if _h : 0 < output.length ∧ output.length < room then
      (fill after rest (room - output.length)).map fun (final, more, left) =>
        (final, output ++ more, left)
    else some (after, output, rest)
  termination_by room

/-- One call of the zlib decoder. -/
def step (s : Stream) (offered : Bytes) (room : Nat) : Option (Progress Stream offered room) :=
  let result := if 0 < s.pending then
      let (after, output) := s.deliver room
      some (after, output, offered)
    else s.fill offered room
  result.map fun (after, output, rest) =>
    { state := after
      read := offered.length - rest.length
      output := output.take room
      ended := after.isOver
      read_le := Nat.sub_le ..
      output_le := List.length_take_le .. }

end Stream

/-- The decoder for zlib streams. -/
def Decoder.zlib : Decoder where
  State := Stream
  start := ⟨.start, 0⟩
  step := Stream.step

/-- The decoder that compressed payloads are read with. -/
class Inflater where
  decoder : Decoder

/-- Where none is given it is the one for zlib streams. -/
instance (priority := low) : Inflater where
  decoder := .zlib

end Stowage.Zlib
