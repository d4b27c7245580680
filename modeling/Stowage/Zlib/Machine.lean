import Stowage.Zlib.Checksum
import Stowage.Zlib.CodeTree
/-!
# The zlib format as a machine

A zlib stream is read bit by bit. The machine is always in one *phase* that says what it needs
next: a bit, a byte of stored data, or room for a byte that it is about to write. Because every
step takes exactly one of these, a run on some input does not depend on how the input is cut into
pieces, and it ends when the input or the room is used up.

The bytes written so far are the machine's history. A match copies from the history; a distance
that reaches back before the first byte finds zeros there.
-/

namespace Stowage.Zlib

/-- The codes of a block: one for bytes and match lengths, one for distances. -/
structure Codes where
  lengths : CodeTree
  distances : CodeTree
  deriving Inhabited

/-- The part of a block header that announces the codes of the block: how many lengths belong to
each code, the code in which the lengths are written, and the lengths read so far, the last one
first. -/
structure Announcement where
  lengthCount : Nat
  distanceCount : Nat
  code : CodeTree
  found : List Nat
  deriving Inhabited

namespace Announcement

/-- How many lengths are announced altogether. -/
def total (a : Announcement) : Nat := a.lengthCount + a.distanceCount

end Announcement

/-- A number of fixed width in the stream, with what is known when it is read. -/
inductive Field where
  /-- The two bytes that open a stream. -/
  | streamHeader
  /-- The mark of the last block and the type of a block. -/
  | blockHeader
  /-- The length of a stored block and its complement. -/
  | storedLength
  /-- How many code lengths follow, for three codes. -/
  | codeCounts
  /-- One length of the code in which the other lengths are written. -/
  | metaLength (lengthCount distanceCount remaining : Nat) (found : List Nat)
  /-- How often a length is repeated. -/
  | repetition (a : Announcement) (length least bits : Nat)
  /-- The rest of a match length. -/
  | lengthRest (base bits : Nat)
  /-- The rest of a distance. -/
  | distanceRest (length base bits : Nat)
  /-- The checksum at the end. -/
  | trailer
  deriving Inhabited

/-- What a code word stands for. -/
inductive CodeUse where
  | codeLength (a : Announcement)
  | byteOrLength
  | distance (length : Nat)
  deriving Inhabited

/-- What the machine is about to do. -/
inductive Phase where
  /-- Reads a number, the lowest bit first, of which some bits are known. -/
  | field (f : Field) (got value : Nat)
  /-- Reads a code word, of which some bits have led to a place in the tree. -/
  | word (use : CodeUse) (place : CodeTree)
  /-- Passes on stored bytes. -/
  | stored (left : Nat)
  /-- Writes a byte. -/
  | byte (value : UInt8)
  /-- Repeats bytes of the history. -/
  | copy (distance left : Nat)
  /-- The stream is over. -/
  | ended
  /-- The stream breaks the format. -/
  | broken
  deriving Inhabited

/-- The state of reading a stream. -/
structure Machine where
  phase : Phase
  /-- The bits of the last byte taken that have not been used. -/
  hand : List Bool
  history : Array UInt8
  lastBlock : Bool
  codes : Codes
  deriving Inhabited

namespace Field

/-- The width of a number in bits. -/
def width : Field → Nat
  | streamHeader => 16
  | blockHeader => 3
  | storedLength => 32
  | codeCounts => 14
  | metaLength .. => 3
  | repetition _ _ _ bits => bits
  | lengthRest _ bits => bits
  | distanceRest _ _ bits => bits
  | trailer => 32

end Field

/-! ## Tables of the format -/

/-- The order in which the lengths of the first code are written. -/
def metaOrder : List Nat :=
  [16, 17, 18, 0, 8, 7, 9, 6, 10, 5, 11, 4, 12, 3, 13, 2, 14, 1, 15]

/-- The least match length of each length symbol, and how many bits complete it. -/
def matchLengths : Array (Nat × Nat) :=
  #[(3, 0), (4, 0), (5, 0), (6, 0), (7, 0), (8, 0), (9, 0), (10, 0), (11, 1), (13, 1), (15, 1),
    (17, 1), (19, 2), (23, 2), (27, 2), (31, 2), (35, 3), (43, 3), (51, 3), (59, 3), (67, 4),
    (83, 4), (99, 4), (115, 4), (131, 5), (163, 5), (195, 5), (227, 5), (258, 0)]

/-- The least distance of each distance symbol, and how many bits complete it. -/
def matchDistances : Array (Nat × Nat) :=
  #[(1, 0), (2, 0), (3, 0), (4, 0), (5, 1), (7, 1), (9, 2), (13, 2), (17, 3), (25, 3), (33, 4),
    (49, 4), (65, 5), (97, 5), (129, 6), (193, 6), (257, 7), (385, 7), (513, 8), (769, 8),
    (1025, 9), (1537, 9), (2049, 10), (3073, 10), (4097, 11), (6145, 11), (8193, 12), (12289, 12),
    (16385, 13), (24577, 13)]

/-- The lengths of the words for bytes and match lengths in a block that announces no codes. -/
def fixedLengths : List Nat :=
  List.replicate 144 8 ++ List.replicate 112 9 ++ List.replicate 24 7 ++ List.replicate 8 8

/-- The lengths of the words for distances in a block that announces no codes. -/
def fixedDistances : List Nat := List.replicate 32 5

/-- The codes of a block that announces none. -/
def fixedCodes : Codes := ⟨.ofLengths fixedLengths, .ofLengths fixedDistances⟩

namespace Machine

/-- The machine at the start of a stream. -/
def start : Machine := ⟨.field .streamHeader 0 0, [], #[], false, default⟩

/-! ## Transitions -/

/-- Goes on to another phase. -/
def enter (m : Machine) (phase : Phase) : Machine := { m with phase }

/-- Goes on to read a code word. -/
def readWord (m : Machine) (use : CodeUse) : Machine :=
  m.enter (.word use (match use with
    | .codeLength a => a.code
    | .byteOrLength => m.codes.lengths
    | .distance _ => m.codes.distances))

/-- Goes on after a block: to the next one, or to the checksum, which starts at a whole byte. -/
def endBlock (m : Machine) : Machine :=
  if m.lastBlock then { m with hand := [], phase := .field .trailer 0 0 }
  else m.enter (.field .blockHeader 0 0)

/-- Goes on with a stored block. -/
def readStored (m : Machine) (left : Nat) : Machine :=
  if left = 0 then m.endBlock else m.enter (.stored left)

/-- Whether two bytes open a stream: the method is 8, the window is at most 32768 bytes, no
dictionary is preset, and the check bits are right. -/
def opensStream (first second : Nat) : Bool :=
  (first * 256 + second) % 31 = 0 && second &&& 32 = 0 && first &&& 15 = 8 && first >>> 4 ≤ 7

/-- Goes on when all code lengths of a block are known. Both codes are checked before the first
word is read, whether or not the block goes on to use them. -/
def startBlock (m : Machine) (a : Announcement) : Machine :=
  let lengths := a.found.reverse
  let first := lengths.take a.lengthCount
  let second := lengths.drop a.lengthCount
  if CodeTree.isSound first && CodeTree.isSound second then
    { m with codes := ⟨.ofLengths first, .ofLengths second⟩ }.readWord .byteOrLength
  else m.enter .broken

/-- Goes on when more code lengths are known. -/
def readLengths (m : Machine) (a : Announcement) : Machine :=
  if a.found.length < a.total then m.readWord (.codeLength a)
  else if a.found.length = a.total then m.startBlock a
  else m.enter .broken

/-- The lengths of the first code by symbol, from those read in the order of the format, the last
one first. -/
def metaLengths (found : List Nat) : List Nat :=
  let known := metaOrder.zip found.reverse
  (List.range 19).map fun symbol => (known.lookup symbol).getD 0

/-- Goes on after the two bytes that open a stream. -/
def onStreamHeader (m : Machine) (value : Nat) : Machine :=
  if opensStream (value % 256) (value / 256) then m.enter (.field .blockHeader 0 0)
  else m.enter .broken

/-- Goes on after the header of a block. A stored block starts at a whole byte. -/
def onBlockHeader (m : Machine) (value : Nat) : Machine :=
  let m := { m with lastBlock := value % 2 = 1 }
  match value / 2 with
  | 0 => { m with hand := [], phase := .field .storedLength 0 0 }
  | 1 => { m with codes := fixedCodes }.readWord .byteOrLength
  | 2 => m.enter (.field .codeCounts 0 0)
  | _ => m.enter .broken

/-- Goes on after the length of a stored block. -/
def onStoredLength (m : Machine) (value : Nat) : Machine :=
  if value % 65536 + value / 65536 = 65535 then m.readStored (value % 65536) else m.enter .broken

/-- Goes on after the numbers of code lengths. -/
def onCodeCounts (m : Machine) (value : Nat) : Machine :=
  let lengthCount := value % 32 + 257
  let distanceCount := value / 32 % 32 + 1
  if 286 < lengthCount || 30 < distanceCount then m.enter .broken
  else m.enter (.field (.metaLength lengthCount distanceCount (value / 1024 + 3) []) 0 0)

/-- Goes on after one length of the first code. -/
def onMetaLength (m : Machine) (lengthCount distanceCount remaining : Nat) (found : List Nat) :
    Machine :=
  if 0 < remaining then
    m.enter (.field (.metaLength lengthCount distanceCount (remaining - 1) found) 0 0)
  else if CodeTree.isComplete (metaLengths found) then
    m.readLengths ⟨lengthCount, distanceCount, .ofLengths (metaLengths found), []⟩
  else m.enter .broken

/-- The number whose four bytes are those of another one in opposite order. -/
def reverseBytes (value : Nat) : Nat :=
  value % 256 * 16777216 + value / 256 % 256 * 65536 + value / 65536 % 256 * 256 + value / 16777216

/-- Goes on after the checksum, whose highest byte comes first. -/
def onTrailer (m : Machine) (value : Nat) : Machine :=
  m.enter (if reverseBytes value = checksum m.history.toList then .ended else .broken)

/-- Goes on when a number has been read. -/
def onField (m : Machine) (f : Field) (value : Nat) : Machine :=
  match f with
  | .streamHeader => m.onStreamHeader value
  | .blockHeader => m.onBlockHeader value
  | .storedLength => m.onStoredLength value
  | .codeCounts => m.onCodeCounts value
  | .metaLength lengthCount distanceCount remaining found =>
    m.onMetaLength lengthCount distanceCount remaining (value :: found)
  | .repetition a length least _ =>
    m.readLengths { a with found := List.replicate (least + value) length ++ a.found }
  | .lengthRest base _ => m.readWord (.distance (base + value))
  | .distanceRest length base _ => m.enter (.copy (base + value) length)
  | .trailer => m.onTrailer value

/-- Goes on to read a number, which may have no bits at all. -/
def readField (m : Machine) (f : Field) : Machine :=
  if f.width = 0 then m.onField f 0 else m.enter (.field f 0 0)

/-- Goes on when a code word has been read. -/
def onSymbol (m : Machine) (use : CodeUse) (symbol : Nat) : Machine :=
  match use with
  | .codeLength a =>
    match symbol with
    | 16 => match a.found with
      | [] => m.enter .broken
      | last :: _ => m.readField (.repetition a last 3 2)
    | 17 => m.readField (.repetition a 0 3 3)
    | 18 => m.readField (.repetition a 0 11 7)
    | length => m.readLengths { a with found := length :: a.found }
  | .byteOrLength =>
    if symbol < 256 then m.enter (.byte symbol.toUInt8)
    else if symbol = 256 then m.endBlock
    else match matchLengths[symbol - 257]? with
      | some (base, bits) => m.readField (.lengthRest base bits)
      | none => m.enter .broken
  | .distance length =>
    match matchDistances[symbol]? with
    | some (base, bits) => m.readField (.distanceRest length base bits)
    | none => m.enter .broken

/-- Goes on after one more bit. A word that is not in the code is noticed at the first bit that no
word of the code has there. -/
def onBit (m : Machine) (bit : Bool) : Machine :=
  match m.phase with
  | .field f got value =>
    let value := if bit then value + (1 <<< got) else value
    if got + 1 = f.width then m.onField f value else m.enter (.field f (got + 1) value)
  | .word use place =>
    match place.child bit with
    | .leaf symbol => m.onSymbol use symbol
    | .node zero one => m.enter (.word use (.node zero one))
    | .empty => m.enter .broken
  | _ => m

/-- Writes a byte. -/
def write (m : Machine) (b : UInt8) : Machine := { m with history := m.history.push b }

/-- The byte that stands a distance back in the history. -/
def lookBack (m : Machine) (distance : Nat) : UInt8 :=
  if distance ≤ m.history.size then m.history.getD (m.history.size - distance) 0 else 0

/-- Writes the byte that the machine is about to write. -/
def emit (m : Machine) : Machine :=
  match m.phase with
  | .byte value => (m.write value).readWord .byteOrLength
  | .copy distance left =>
    let m := m.write (m.lookBack distance)
    if left ≤ 1 then m.readWord .byteOrLength else m.enter (.copy distance (left - 1))
  | _ => m

/-- Passes on a stored byte. -/
def onStored (m : Machine) (left : Nat) (b : UInt8) : Machine :=
  (m.write b).readStored (left - 1)

/-- The bits of a byte, the lowest first. -/
def bitsOf (b : UInt8) : List Bool :=
  (List.range 8).map b.toNat.testBit

/-! ## Steps never add to the bits in hand -/

theorem hand_endBlock_le (m : Machine) : m.endBlock.hand.length ≤ m.hand.length := by
  unfold endBlock
  split <;> simp [enter]

theorem hand_readStored_le (m : Machine) (left : Nat) :
    (m.readStored left).hand.length ≤ m.hand.length := by
  unfold readStored
  split
  · exact m.hand_endBlock_le
  · exact Nat.le_refl _

theorem hand_readLengths (m : Machine) (a : Announcement) : (m.readLengths a).hand = m.hand := by
  unfold readLengths startBlock
  simp only
  repeat' split
  all_goals rfl

theorem hand_onBlockHeader_le (m : Machine) (value : Nat) :
    (m.onBlockHeader value).hand.length ≤ m.hand.length := by
  unfold onBlockHeader
  split <;> simp [readWord, enter]

theorem hand_onStoredLength_le (m : Machine) (value : Nat) :
    (m.onStoredLength value).hand.length ≤ m.hand.length := by
  unfold onStoredLength
  split
  · exact m.hand_readStored_le _
  · exact Nat.le_refl _

theorem hand_onMetaLength (m : Machine) (lengthCount distanceCount remaining : Nat)
    (found : List Nat) :
    (m.onMetaLength lengthCount distanceCount remaining found).hand = m.hand := by
  unfold onMetaLength
  repeat' split
  · rfl
  · exact m.hand_readLengths _
  · rfl

theorem hand_onStreamHeader (m : Machine) (value : Nat) :
    (m.onStreamHeader value).hand = m.hand := by
  unfold onStreamHeader
  split <;> rfl

theorem hand_onCodeCounts (m : Machine) (value : Nat) :
    (m.onCodeCounts value).hand = m.hand := by
  unfold onCodeCounts
  simp only
  split <;> rfl

theorem hand_onTrailer (m : Machine) (value : Nat) : (m.onTrailer value).hand = m.hand := by
  unfold onTrailer
  split <;> rfl

theorem hand_onField_le (m : Machine) (f : Field) (value : Nat) :
    (m.onField f value).hand.length ≤ m.hand.length := by
  cases f with
  | streamHeader => simp only [onField, hand_onStreamHeader, Nat.le_refl]
  | blockHeader => exact m.hand_onBlockHeader_le value
  | storedLength => exact m.hand_onStoredLength_le value
  | codeCounts => simp only [onField, hand_onCodeCounts, Nat.le_refl]
  | metaLength => simp only [onField, hand_onMetaLength, Nat.le_refl]
  | repetition => simp only [onField, hand_readLengths, Nat.le_refl]
  | lengthRest => simp only [onField, readWord, enter, Nat.le_refl]
  | distanceRest => simp only [onField, enter, Nat.le_refl]
  | trailer => simp only [onField, hand_onTrailer, Nat.le_refl]

theorem hand_readField_le (m : Machine) (f : Field) :
    (m.readField f).hand.length ≤ m.hand.length := by
  unfold readField
  split
  · exact m.hand_onField_le f 0
  · exact Nat.le_refl _

theorem hand_onSymbol_le (m : Machine) (use : CodeUse) (symbol : Nat) :
    (m.onSymbol use symbol).hand.length ≤ m.hand.length := by
  unfold onSymbol
  repeat' split
  all_goals first
    | exact Nat.le_refl _
    | exact m.hand_endBlock_le
    | exact m.hand_readField_le _
    | exact Nat.le_of_eq (congrArg List.length (hand_readLengths ..))

theorem hand_onBit_le (m : Machine) (bit : Bool) :
    (m.onBit bit).hand.length ≤ m.hand.length := by
  unfold onBit
  repeat' split
  all_goals first
    | exact Nat.le_refl _
    | exact m.hand_onField_le _ _
    | exact m.hand_onSymbol_le _ _

theorem hand_emit_le (m : Machine) : m.emit.hand.length ≤ m.hand.length := by
  unfold emit
  repeat' split
  all_goals exact Nat.le_refl _

theorem hand_onStored_le (m : Machine) (left : Nat) (b : UInt8) :
    (m.onStored left b).hand.length ≤ m.hand.length :=
  hand_readStored_le (m.write b) (left - 1)

theorem length_bitsOf (b : UInt8) : (bitsOf b).length = 8 := rfl

/-! ## Runs -/

/-- Runs on some input with room for some bytes, until the stream ends or breaks, or the next step
needs what is not there. Returns what is left of the input. -/
def run (m : Machine) (room : Nat) (input : Bytes) : Machine × Bytes :=
  match m.phase with
  | .ended => (m, input)
  | .broken => (m, input)
  | .byte _ | .copy .. =>
    match room with
    | 0 => (m, input)
    | room + 1 => m.emit.run room input
  | .stored left =>
    match room, input with
    | room + 1, b :: rest => (m.onStored left b).run room rest
    | _, _ => (m, input)
  | .field .. | .word .. =>
    match _h : m.hand with
    | bit :: hand => ({ m with hand }.onBit bit).run room input
    | [] =>
      match input with
      | b :: rest => { m with hand := bitsOf b }.run room rest
      | [] => (m, [])
  termination_by room + m.hand.length + 9 * input.length
  decreasing_by
    all_goals first
      | have := m.hand_emit_le
        omega
      | have := m.hand_onStored_le left b
        simp only [List.length_cons]
        omega
      | have := ({ m with hand }).hand_onBit_le bit
        simp only [_h, List.length_cons] at this ⊢
        omega
      | simp only [length_bitsOf, _h, List.length_cons, List.length_nil]
        omega

end Machine

end Stowage.Zlib
