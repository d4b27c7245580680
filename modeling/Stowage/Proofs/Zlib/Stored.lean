import Stowage.Zlib.Compress
import Stowage.Proofs.Zlib.Run

/-!
# Streams of stored blocks

That some input leads to the end of a stream is shown backwards here: from the end of
the stream over the bits, the bytes and the blocks before it.  A number of the format is
read bit by bit, the lowest first, so that whole bytes give the number for which they
stand with the low byte first.

The plainest compressor writes the bytes themselves in stored blocks.  Its streams stand
for what was given to it (`decodes_encode`), for data of any length.
-/

namespace Stowage.Zlib

/-- Some bytes are a stream that stands for the given data. -/
def Decodes (stream data : Bytes) : Prop := Machine.start.Finishes stream data

variable {input data : Bytes}

/-! ## Numbers in bits and bytes -/

theorem ofBits_fieldBits (width value : Nat) :
    ofBits (fieldBits width value) = value % (1 <<< width) := by
  rw [Nat.one_shiftLeft]
  induction width generalizing value with
  | zero => rw [Nat.pow_zero, Nat.mod_one]; rfl
  | succ width ih =>
    have hbits : fieldBits (width + 1) value =
        value.testBit 0 :: fieldBits width (value / 2) := by
      rw [fieldBits, List.range_succ_eq_map, List.map_cons, List.map_map, fieldBits]
      refine congrArg _ (List.map_congr_left fun i _ => ?_)
      exact Nat.testBit_succ value i
    have hlow : (value.testBit 0).toNat = value % 2 := by
      rw [Nat.testBit_zero]
      rcases Nat.mod_two_eq_zero_or_one value with h | h <;> rw [h] <;> rfl
    rw [hbits, ofBits, hlow, ih, Nat.pow_succ, Nat.mul_comm (2 ^ width), Nat.mod_mul]

/-- The number that some bytes stand for, the low byte first. -/
def littleEndian : Bytes → Nat
  | [] => 0
  | b :: rest => b.toNat + littleEndian rest <<< 8

theorem ofBits_bitsOf (b : UInt8) : ofBits (Machine.bitsOf b) = b.toNat := by
  have hbits : Machine.bitsOf b = fieldBits 8 b.toNat := rfl
  rw [hbits, ofBits_fieldBits]
  exact Nat.mod_eq_of_lt b.toNat_lt

theorem littleEndian_twoBytes {n : Nat} (h : n ≤ maxStored) (rest : Bytes) :
    littleEndian (twoBytes n ++ rest) = n + littleEndian rest <<< 16 := by
  rw [maxStored] at h
  simp only [twoBytes, List.cons_append, List.nil_append, littleEndian, Nat.toUInt8_eq,
    UInt8.toNat_ofNat', Nat.shiftLeft_eq]
  omega

theorem reverseBytes_littleEndian (a b c d : UInt8) :
    Machine.reverseBytes (littleEndian [a, b, c, d]) = Word.decode [a, b, c, d] := by
  have := a.toNat_lt
  have := b.toNat_lt
  have := c.toNat_lt
  have hvalue : littleEndian [a, b, c, d] =
      a.toNat + 256 * (b.toNat + 256 * (c.toNat + 256 * d.toNat)) := by
    simp only [littleEndian, Nat.shiftLeft_eq]
    omega
  have hfirst : littleEndian [a, b, c, d] % 256 = a.toNat := by omega
  have hsecond : littleEndian [a, b, c, d] / 256 % 256 = b.toNat := by omega
  have hthird : littleEndian [a, b, c, d] / 65536 % 256 = c.toNat := by omega
  have hfourth : littleEndian [a, b, c, d] / 16777216 = d.toNat := by omega
  simp only [Word.decode, List.foldl_cons, List.foldl_nil]
  rw [Machine.reverseBytes, hfirst, hsecond, hthird, hfourth]
  omega

/-- The checksum is written with its highest byte first and read with its lowest first. -/
theorem reverseBytes_encode {n : Nat} (h : n < UInt32.size) :
    Machine.reverseBytes (littleEndian (Word.encode n)) = n := by
  have hdecode := Word.decode_encode n
  rw [Nat.mod_eq_of_lt h] at hdecode
  rw [Word.encode, reverseBytes_littleEndian]
  exact hdecode

theorem Checksum.addAll_lt (bytes : Bytes) : ∀ {c : Checksum}, c.low < modulus → c.high < modulus →
    (c.addAll bytes).low < modulus ∧ (c.addAll bytes).high < modulus := by
  induction bytes with
  | nil => exact fun hlow hhigh => ⟨hlow, hhigh⟩
  | cons b bytes ih =>
    intro c _ _
    exact ih (Nat.mod_lt _ (by decide)) (Nat.mod_lt _ (by decide))

theorem checksum_lt (bytes : Bytes) : checksum bytes < UInt32.size := by
  obtain ⟨hlow, hhigh⟩ := Checksum.addAll_lt bytes (c := Checksum.start) (by decide) (by decide)
  have hsize : UInt32.size = 4294967296 := rfl
  rw [Checksum.modulus] at hlow hhigh
  rw [checksum, Checksum.value]
  omega

namespace Machine

variable {m : Machine}

/-! ## Steps towards the end -/

theorem finishes_of_bit {bit : Bool} {hand : List Bool} (h : m.Reads) (hhand : m.hand = bit :: hand)
    (hrest : ({ m with hand }.onBit bit).Finishes input data) : m.Finishes input data := by
  obtain ⟨room, hend⟩ := hrest
  refine ⟨room, ?_⟩
  rw [run_bit h hhand]
  exact hend

theorem finishes_of_take {b : UInt8} (h : m.Reads) (hhand : m.hand = [])
    (hrest : { m with hand := bitsOf b }.Finishes input data) : m.Finishes (b :: input) data := by
  obtain ⟨room, hend⟩ := hrest
  refine ⟨room, ?_⟩
  rw [run_take h hhand]
  exact hend

theorem finishes_of_pass {left : Nat} {b : UInt8} (h : m.phase = .stored left)
    (hrest : (m.onStored left b).Finishes input data) : m.Finishes (b :: input) data := by
  obtain ⟨room, hend⟩ := hrest
  refine ⟨room + 1, ?_⟩
  rw [run_pass h]
  exact hend

theorem finishes_of_emit (h : m.Emits) (hrest : m.emit.Finishes input data) :
    m.Finishes input data := by
  obtain ⟨room, hend⟩ := hrest
  refine ⟨room + 1, ?_⟩
  rw [run_emit h]
  exact hend

/-! ## Numbers -/

/-- The machine in the middle of a number, of which some bits are known. -/
def reading (m : Machine) (f : Field) (got value : Nat) (hand : List Bool) : Machine :=
  { m with phase := .field f got value, hand }

theorem reads_reading (m : Machine) (f : Field) (got value : Nat) (hand : List Bool) :
    (m.reading f got value hand).Reads := .inl ⟨f, got, value, rfl⟩

theorem add_ofBits_cons (got value : Nat) (bit : Bool) (bits : List Bool) :
    (if bit then value + 1 <<< got else value) + ofBits bits <<< (got + 1) =
      value + ofBits (bit :: bits) <<< got := by
  rw [ofBits, Nat.shiftLeft_eq, Nat.shiftLeft_eq, Nat.shiftLeft_eq, Nat.add_mul, Nat.pow_succ,
    Nat.mul_comm (2 ^ got) 2, ← Nat.mul_assoc, Nat.mul_comm (ofBits bits) 2]
  cases bit with
  | false => rw [Bool.toNat_false, Nat.zero_mul, Nat.zero_add, if_neg Bool.false_ne_true]
  | true => rw [Bool.toNat_true, if_pos rfl, Nat.add_assoc]

variable {f : Field} {got value : Nat}

/-- The last bits of a number. -/
theorem finishes_of_lastBits {bits hand : List Bool} (hne : bits ≠ [])
    (hwidth : got + bits.length = f.width)
    (hrest : ∀ got' value', ((m.reading f got' value' hand).onField f
      (value + ofBits bits <<< got)).Finishes input data) :
    (m.reading f got value (bits ++ hand)).Finishes input data := by
  induction bits generalizing got value with
  | nil => exact absurd rfl hne
  | cons bit bits ih =>
    refine finishes_of_bit (m.reads_reading ..) rfl ?_
    rw [List.length_cons] at hwidth
    show (if got + 1 = f.width then
      (m.reading f got value (bits ++ hand)).onField f (if bit then value + 1 <<< got else value)
      else m.reading f (got + 1) (if bit then value + 1 <<< got else value)
        (bits ++ hand)).Finishes input data
    cases bits with
    | nil =>
      rw [if_pos (by rw [← hwidth]; rfl)]
      have := hrest got value
      rw [← add_ofBits_cons, ofBits, Nat.zero_shiftLeft, Nat.add_zero] at this
      exact this
    | cons bit' bits =>
      rw [if_neg (by rw [List.length_cons] at hwidth; omega)]
      refine ih nofun (by omega) fun got' value' => ?_
      rw [add_ofBits_cons]
      exact hrest got' value'

/-- Bits after which the number goes on. -/
theorem finishes_of_moreBits {bits hand : List Bool} (hwidth : got + bits.length < f.width)
    (hrest : (m.reading f (got + bits.length) (value + ofBits bits <<< got) hand).Finishes input
      data) :
    (m.reading f got value (bits ++ hand)).Finishes input data := by
  induction bits generalizing got value with
  | nil =>
    rw [ofBits, Nat.zero_shiftLeft] at hrest
    exact hrest
  | cons bit bits ih =>
    refine finishes_of_bit (m.reads_reading ..) rfl ?_
    rw [List.length_cons] at hwidth
    show (if got + 1 = f.width then
      (m.reading f got value (bits ++ hand)).onField f (if bit then value + 1 <<< got else value)
      else m.reading f (got + 1) (if bit then value + 1 <<< got else value)
        (bits ++ hand)).Finishes input data
    rw [if_neg (by omega)]
    refine ih (by omega) ?_
    rw [add_ofBits_cons, Nat.add_assoc, Nat.add_comm 1]
    exact hrest

/-- **The bytes of a number**, from a place on up to its end. -/
theorem finishes_of_bytes {bytes : Bytes} (hne : bytes ≠ [])
    (hwidth : got + 8 * bytes.length = f.width)
    (hrest : ∀ got' value', ((m.reading f got' value' []).onField f
      (value + littleEndian bytes <<< got)).Finishes input data) :
    (m.reading f got value []).Finishes (bytes ++ input) data := by
  induction bytes generalizing got value with
  | nil => exact absurd rfl hne
  | cons b bytes ih =>
    refine finishes_of_take (m.reads_reading ..) rfl ?_
    show (m.reading f got value (bitsOf b)).Finishes (bytes ++ input) data
    rw [List.length_cons] at hwidth
    rw [← List.append_nil (bitsOf b)]
    cases bytes with
    | nil =>
      refine finishes_of_lastBits nofun hwidth fun got' value' => ?_
      have := hrest got' value'
      rw [littleEndian, littleEndian, Nat.zero_shiftLeft, Nat.add_zero] at this
      rw [ofBits_bitsOf]
      exact this
    | cons b' bytes =>
      refine finishes_of_moreBits ?_ (ih nofun ?_ fun got' value' => ?_)
      · rw [length_bitsOf]
        rw [List.length_cons] at hwidth
        omega
      · rw [length_bitsOf]
        omega
      · have := hrest got' value'
        rw [littleEndian, Nat.shiftLeft_eq, Nat.shiftLeft_eq, Nat.add_mul, Nat.mul_assoc,
          ← Nat.pow_add, ← Nat.add_assoc, Nat.add_comm 8, ← Nat.shiftLeft_eq,
          ← Nat.shiftLeft_eq] at this
        rw [ofBits_bitsOf, length_bitsOf]
        exact this

/-! ## Blocks -/

theorem readStored_enter (m : Machine) (phase : Phase) (left : Nat) :
    (m.enter phase).readStored left = m.readStored left := by
  rw [readStored, readStored, endBlock, endBlock]
  rfl

/-- The bytes of a stored block are passed on. -/
theorem finishes_of_stored {bytes : Bytes}
    (hrest : (bytes.foldl write m).endBlock.Finishes input data) :
    (m.readStored bytes.length).Finishes (bytes ++ input) data := by
  induction bytes generalizing m with
  | nil => exact hrest
  | cons b bytes ih =>
    refine finishes_of_pass rfl ?_
    show (((m.write b).enter _).readStored bytes.length).Finishes (bytes ++ input) data
    rw [readStored_enter]
    exact ih hrest

/-- **A stored block**: its header, its length and its bytes. -/
theorem finishes_of_storedBlock {isLast : Bool} {bytes : Bytes} (hle : bytes.length ≤ maxStored)
    (hrest : (bytes.foldl write { m with lastBlock := isLast, hand := [] }).endBlock.Finishes input
      data) :
    (m.reading .blockHeader 0 0 []).Finishes (storedBlock isLast bytes ++ input) data := by
  have hlength : littleEndian (twoBytes bytes.length ++ twoBytes (65535 - bytes.length)) =
      bytes.length + (65535 - bytes.length) <<< 16 := by
    have hcomplement : 65535 - bytes.length ≤ maxStored := Nat.sub_le ..
    rw [littleEndian_twoBytes hle, ← List.append_nil (twoBytes (65535 - bytes.length)),
      littleEndian_twoBytes hcomplement, littleEndian, Nat.zero_shiftLeft, Nat.add_zero]
  have hheader : ((bitsOf (if isLast then 1 else 0)).take 3).length = Field.blockHeader.width := rfl
  have hsplit : storedBlock isLast bytes ++ input = (if isLast then 1 else 0) ::
      ((twoBytes bytes.length ++ twoBytes (65535 - bytes.length)) ++ (bytes ++ input)) := by
    simp only [storedBlock, List.cons_append, List.append_assoc]
  rw [hsplit]
  refine finishes_of_take (m.reads_reading ..) rfl ?_
  show (m.reading .blockHeader 0 0 (bitsOf (if isLast then 1 else 0))).Finishes _ data
  rw [← List.take_append_drop 3 (bitsOf _)]
  refine finishes_of_lastBits nofun hheader fun got' value' => ?_
  have hblock : (m.reading .blockHeader got' value'
    ((bitsOf (if isLast then 1 else 0)).drop 3)).onField
      .blockHeader (0 + ofBits ((bitsOf (if isLast then 1 else 0)).take 3) <<< 0) =
      ({ m with lastBlock := isLast } : Machine).reading .storedLength 0 0 [] := by
    cases isLast <;> rfl
  rw [hblock]
  refine finishes_of_bytes nofun rfl fun got' value' => ?_
  rw [hlength, onField, onStoredLength, Nat.shiftLeft_zero, Nat.zero_add, Nat.shiftLeft_eq]
  rw [maxStored] at hle
  rw [if_pos (by omega), show (bytes.length + (65535 - bytes.length) * 2 ^ 16) % 65536 =
    bytes.length by omega]
  show (({ m with lastBlock := isLast, hand := [] } : Machine).enter _ |>.readStored
    bytes.length).Finishes _ data
  rw [readStored_enter]
  exact finishes_of_stored hrest

theorem foldl_write (bytes : Bytes) (m : Machine) :
    bytes.foldl write m = { m with history := m.history ++ bytes } := by
  induction bytes generalizing m with
  | nil => rfl
  | cons b bytes ih =>
    rw [List.foldl_cons, ih]
    have hhistory : m.history.push b ++ bytes = m.history ++ b :: bytes := by
      refine Array.toList_inj.mp ?_
      rw [Array.toList_appendList, Array.toList_appendList, Array.toList_push, List.append_assoc]
      rfl
    show ({ m with history := m.history.push b ++ bytes } : Machine) = _
    rw [hhistory]

/-- The checksum at the end. -/
theorem finishes_trailer (m : Machine) : (m.reading .trailer 0 0 []).Finishes
    (Word.encode (checksum m.history.toList)) m.history.toList := by
  rw [← List.append_nil (Word.encode _)]
  refine finishes_of_bytes nofun rfl fun got' value' => ?_
  rw [onField, onTrailer, Nat.shiftLeft_zero, Nat.zero_add,
    reverseBytes_encode (checksum_lt _)]
  refine finishes_of_ended ?_
  show (if _ then Phase.ended else Phase.broken) = _
  exact if_pos rfl

/-- The blocks, and the checksum of all that has been written with them. -/
theorem finishes_storedBlocks (bytes : Bytes) (m : Machine) :
    (m.reading .blockHeader 0 0 []).Finishes
      (storedBlocks bytes ++ Word.encode (checksum (m.history.toList ++ bytes)))
      (m.history.toList ++ bytes) := by
  fun_induction storedBlocks bytes generalizing m with
  | case1 bytes hle =>
    refine finishes_of_storedBlock hle ?_
    rw [foldl_write]
    have := finishes_trailer { m with lastBlock := true, history := m.history ++ bytes }
    rw [Array.toList_appendList] at this
    exact this
  | case2 bytes hlong ih =>
    rw [List.append_assoc]
    refine finishes_of_storedBlock (List.length_take_le ..) ?_
    rw [foldl_write]
    have := ih { m with lastBlock := false, history := m.history ++ bytes.take maxStored }
    rw [Array.toList_appendList, List.append_assoc, List.take_append_drop] at this
    exact this

end Machine

/-- The two bytes that open a stream. -/
theorem decodes_of_blocks (h : (Machine.start.reading .blockHeader 0 0 []).Finishes input data) :
    Decodes ([0x78, 0x01] ++ input) data := by
  have hheader (got value : Nat) :
      (Machine.start.reading .streamHeader got value []).onField .streamHeader
        (0 + littleEndian [0x78, 0x01] <<< 0) = Machine.start.reading .blockHeader 0 0 [] := by
    have hvalue : 0 + littleEndian [0x78, 0x01] <<< 0 = 376 := by decide
    have hopens : Machine.opensStream (376 % 256) (376 / 256) = true := by decide
    rw [Machine.onField, Machine.onStreamHeader, hvalue, if_pos hopens]
    rfl
  have hstream : Machine.start.reading .streamHeader 0 0 [] = Machine.start := rfl
  rw [Decodes, ← hstream]
  refine Machine.finishes_of_bytes (List.cons_ne_nil _ _) rfl fun got value => ?_
  rw [hheader]
  exact h

/-- **What is stored is decoded**, for data of any length. -/
theorem decodes_encode (data : Bytes) : Decodes (encode data) data := by
  rw [encode, List.append_assoc]
  exact decodes_of_blocks (Machine.finishes_storedBlocks data Machine.start)

end Stowage.Zlib
