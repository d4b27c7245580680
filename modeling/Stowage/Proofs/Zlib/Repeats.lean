import Stowage.Proofs.Zlib.Stored

/-!
# Streams that are much shorter than their data

A match takes as little as two bits and stands for up to 258 bytes.  The length of a stream
is therefore no bound for that of its data: `zeroStream k` takes `k + 26` bytes and stands
for `1032 * k + 775` zeros (`decodes_zeroStream`).

Such a stream starts with a stored block of one zero.  A second block announces a code of
two words, one for its end and one for the longest match, and a distance code of one word.
Its announcement is closed input, on which the machine is simply run (`readAhead`); each byte
after it holds four matches (`Machine.finishes_of_matches`).
-/

namespace Stowage.Zlib

/-! ## The checksum of zeros -/

/-- Zeros leave the first sum as it is, and each of them adds it to the second. -/
theorem Checksum.addAll_zeros (n : Nat) {c : Checksum} (hlow : c.low < modulus)
    (hhigh : c.high < modulus) :
    c.addAll (List.replicate n 0) = ⟨c.low, (c.high + n * c.low) % modulus⟩ := by
  induction n generalizing c with
  | zero => rw [Nat.zero_mul, Nat.add_zero, Nat.mod_eq_of_lt hhigh]; rfl
  | succ n ih =>
    have hadd : c.add 0 = ⟨c.low, (c.high + c.low) % modulus⟩ := by
      simp only [add, UInt8.toNat_zero, Nat.add_zero, Nat.mod_eq_of_lt hlow]
    show (c.add 0).addAll (List.replicate n 0) = _
    have hsum : (c.high + c.low) % modulus < modulus := Nat.mod_lt _ (by decide)
    rw [hadd, ih (c := ⟨c.low, (c.high + c.low) % modulus⟩) hlow hsum]
    simp only [Nat.mod_add_mod, Nat.succ_mul, Nat.add_assoc, Nat.add_comm c.low]

theorem checksum_zeros (n : Nat) : checksum (List.replicate n 0) = n % 65521 * 65536 + 1 := by
  rw [checksum, Checksum.addAll_zeros n (by decide) (by decide)]
  simp only [Checksum.value, Checksum.start, Checksum.modulus, Nat.zero_add, Nat.mul_one]

/-! ## The stream -/

/-- The codes of a block that has no words but for its end and for the longest match. -/
def matchCodes : Codes := ⟨.node (.leaf 256) (.leaf 285), .node (.leaf 0) .empty⟩

/-- The header of the last block with these codes, and three matches. -/
def matchBlockHead : Bytes := [0xed, 0xc0, 0x81, 0, 0, 0, 0, 0, 0x90, 0xff, 0x6b, 0x23, 0x54]

/-- A stream that stands for `1032 * k + 775` zeros. -/
def zeroStream (k : Nat) : Bytes :=
  [0x78, 0x01] ++ (storedBlock false [0] ++ (matchBlockHead ++ (List.replicate k 0x55 ++
    0 :: Word.encode ((1032 * k + 775) % 65521 * 65536 + 1))))

theorem length_zeroStream (k : Nat) : (zeroStream k).length = k + 26 := by
  simp only [zeroStream, List.length_append, List.length_replicate, List.length_cons,
    Word.length_encode]
  simp only [matchBlockHead, storedBlock, twoBytes, List.length_cons, List.length_append,
    List.length_nil]
  omega

/-! ## The codes of the second block -/

/-- The code in which the lengths of the words are announced has words for a length of one
and for a run of zeros. -/
theorem ofLengths_metaLengths : CodeTree.ofLengths (Machine.metaLengths
    [1, 0, 0, 0, 0, 0, 0, 0, 0, 0, 0, 0, 0, 0, 0, 1, 0, 0]) = .node (.leaf 1) (.leaf 18) := by
  rw [CodeTree.ofLengths, CodeTree.canonicalOrder, List.mergeSort_of_pairwise (by decide)]
  rfl

/-- The lengths of the words for bytes and match lengths. -/
def matchWidths : List Nat := List.replicate 256 0 ++ 1 :: (List.replicate 28 0 ++ [1])

theorem ofLengths_matchWidths : CodeTree.ofLengths matchWidths = matchCodes.lengths := by
  have hused : matchWidths.zipIdx.filter (·.1 ≠ 0) = [(1, 256), (1, 285)] := by decide +kernel
  rw [CodeTree.ofLengths, CodeTree.canonicalOrder, hused, List.mergeSort_of_pairwise (by decide)]
  rfl

theorem ofLengths_distance : CodeTree.ofLengths [1] = matchCodes.distances := by
  rw [CodeTree.ofLengths, CodeTree.canonicalOrder, List.mergeSort_of_pairwise (by decide)]
  rfl

namespace Machine

variable {m : Machine} {input data : Bytes} {n : Nat}

/-- The announcement of the codes, after some of the lengths. -/
def announced (found : List Nat) : Announcement := ⟨286, 1, .node (.leaf 1) (.leaf 18), found⟩

/-- All lengths as they are announced, the last one first. -/
def announcedWidths : List Nat :=
  1 :: 1 :: (List.replicate 28 0 ++ 1 :: (List.replicate 118 0 ++ List.replicate 138 0))

theorem startBlock_announced (m : Machine) : m.startBlock (announced announcedWidths) =
    { m with codes := matchCodes }.readWord .byteOrLength := by
  have hlengths : announcedWidths.reverse.take 286 = matchWidths := by decide +kernel
  have hdistances : announcedWidths.reverse.drop 286 = [1] := by decide +kernel
  have hsound : (CodeTree.isSound matchWidths && CodeTree.isSound [1]) = true := by decide +kernel
  simp only [startBlock, announced, hlengths, hdistances, hsound, if_true, ofLengths_matchWidths,
    ofLengths_distance]

/-! ## Reading ahead -/

/-- Takes some steps, each of which reads a bit or takes a byte. -/
def readAhead : Nat → Machine → Bytes → Machine × Bytes
  | 0, m, input => (m, input)
  | steps + 1, m, input =>
    match m.phase with
    | .field .. | .word .. =>
      match m.hand, input with
      | bit :: hand, input => readAhead steps ({ m with hand }.onBit bit) input
      | [], b :: rest => readAhead steps { m with hand := bitsOf b } rest
      | [], [] => (m, [])
    | _ => (m, input)

theorem finishes_of_readAhead (steps : Nat) (h : (m.readAhead steps input).1.Finishes
    (m.readAhead steps input).2 data) : m.Finishes input data := by
  fun_induction readAhead steps m input with
  | case1 | case4 | case7 | case8 => exact h
  | case2 steps m f got value hphase bit hand input hhand ih =>
    exact finishes_of_bit (.inl ⟨f, got, value, hphase⟩) hhand (ih h)
  | case3 steps m f got value hphase b rest hhand ih =>
    exact finishes_of_take (.inl ⟨f, got, value, hphase⟩) hhand (ih h)
  | case5 steps m use place hphase bit hand input hhand ih =>
    exact finishes_of_bit (.inr ⟨use, place, hphase⟩) hhand (ih h)
  | case6 steps m use place hphase b rest hhand ih =>
    exact finishes_of_take (.inr ⟨use, place, hphase⟩) hhand (ih h)

set_option maxRecDepth 10000 in
/-- The numbers in the header of the block, up to the code of the announcement. -/
theorem readAhead_numbers : readAhead 80 (m.reading .blockHeader 0 0 []) (matchBlockHead ++ input) =
    ({ m with hand := [true], lastBlock := true }.readWord (.codeLength (announced [])),
      [0xff, 0x6b, 0x23, 0x54] ++ input) := by
  rw [announced, ← ofLengths_metaLengths]
  rfl

set_option maxRecDepth 10000 in
/-- The lengths that are announced. -/
theorem readAhead_widths : readAhead 31 ({ m with hand := [true] }.readWord
    (.codeLength (announced []))) ([0xff, 0x6b, 0x23, 0x54] ++ input) =
    ({ m with hand := [true, false, true, false, true, false] }.startBlock
      (announced announcedWidths), input) := by
  rfl

/-! ## Matches -/

/-- The machine in a block of matches, with some zeros behind it. -/
def inZeros (n : Nat) (hand : List Bool) : Machine :=
  ⟨.word .byteOrLength matchCodes.lengths, hand, Array.replicate n 0, true, matchCodes⟩

theorem lookBack_zeros (h : m.history = Array.replicate n 0) (distance : Nat) :
    m.lookBack distance = 0 := by
  rw [lookBack, h]
  split
  · simp only [Array.getD_eq_getD_getElem?, Array.getElem?_replicate]
    split <;> rfl
  · rfl

/-- A copied zero. -/
theorem emit_copy (n left : Nat) (hand : List Bool) :
    ((inZeros n hand).enter (.copy 1 (left + 1))).emit = if left = 0 then inZeros (n + 1) hand
      else (inZeros (n + 1) hand).enter (.copy 1 left) := by
  have hzero : ((inZeros n hand).enter (.copy 1 (left + 1))).lookBack 1 = 0 := lookBack_zeros rfl 1
  have hwrite : ((inZeros n hand).enter (.copy 1 (left + 1))).write 0 =
      (inZeros (n + 1) hand).enter (.copy 1 (left + 1)) := by
    rw [write, inZeros, inZeros, Array.replicate_succ]
    rfl
  show (if left + 1 ≤ 1 then (Machine.write _ _).readWord .byteOrLength
    else (Machine.write _ _).enter (.copy 1 left)) = _
  rw [hzero, hwrite]
  cases left with
  | zero => rfl
  | succ left => rfl

/-- A copy of zeros goes on with zeros. -/
theorem finishes_of_copy {left : Nat} {hand : List Bool}
    (hrest : (inZeros (n + (left + 1)) hand).Finishes input data) :
    ((inZeros n hand).enter (.copy 1 (left + 1))).Finishes input data := by
  induction left generalizing n with
  | zero =>
    refine finishes_of_emit (.inr ⟨1, 1, rfl⟩) ?_
    rw [emit_copy]
    exact hrest
  | succ left ih =>
    refine finishes_of_emit (.inr ⟨1, left + 2, rfl⟩) ?_
    rw [emit_copy]
    refine ih ?_
    rw [show n + 1 + (left + 1) = n + (left + 1 + 1) by omega]
    exact hrest

/-- A match, which takes two bits. -/
theorem finishes_of_match {hand : List Bool}
    (hrest : (inZeros (n + 258) hand).Finishes input data) :
    (inZeros n (true :: false :: hand)).Finishes input data := by
  refine finishes_of_readAhead 2 ?_
  exact finishes_of_copy hrest

/-- **Four matches in a byte**, for any number of bytes. -/
theorem finishes_of_matches (k : Nat) (hrest : (inZeros (n + 1032 * k) []).Finishes input data) :
    (inZeros n []).Finishes (List.replicate k 0x55 ++ input) data := by
  induction k generalizing n with
  | zero => exact hrest
  | succ k ih =>
    refine finishes_of_take (.inr ⟨_, _, rfl⟩) rfl ?_
    show (inZeros n [true, false, true, false, true, false, true, false]).Finishes _ data
    refine finishes_of_match (finishes_of_match (finishes_of_match (finishes_of_match (ih ?_))))
    rw [show n + 258 + 258 + 258 + 258 + 1032 * k = n + 1032 * (k + 1) by omega]
    exact hrest

/-- The header of the block of matches, and the three matches in its last byte. -/
theorem finishes_of_matchBlockHead (hhistory : m.history = Array.replicate n 0)
    (hrest : (inZeros (n + 774) []).Finishes input data) :
    (m.reading .blockHeader 0 0 []).Finishes (matchBlockHead ++ input) data := by
  refine finishes_of_readAhead 80 ?_
  rw [readAhead_numbers]
  refine finishes_of_readAhead 31 ?_
  rw [show ({ m with hand := [true], lastBlock := true } : Machine) =
    { ({ m with lastBlock := true } : Machine) with hand := [true] } from rfl, readAhead_widths,
    startBlock_announced]
  have hzeros : ({ m with
      lastBlock := true, hand := [true, false, true, false, true, false], codes := matchCodes } :
      Machine).readWord .byteOrLength = inZeros n [true, false, true, false, true, false] := by
    rw [inZeros, ← hhistory]
    rfl
  show Machine.Finishes _ input data
  rw [hzeros]
  exact finishes_of_match (finishes_of_match (finishes_of_match hrest))

/-- The end of the block of matches, and the checksum. -/
theorem finishes_inZeros (n : Nat) : (inZeros n []).Finishes
    (0 :: Word.encode (n % 65521 * 65536 + 1)) (List.replicate n 0) := by
  refine finishes_of_readAhead 2 ?_
  have hzeros : (inZeros n []).history.toList = List.replicate n 0 := Array.toList_replicate
  have hend := finishes_trailer (inZeros n [])
  rw [hzeros, checksum_zeros] at hend
  exact hend

end Machine

/-- **A short stream for many zeros.** -/
theorem decodes_zeroStream (k : Nat) :
    Decodes (zeroStream k) (List.replicate (1032 * k + 775) 0) := by
  refine decodes_of_blocks (Machine.finishes_of_storedBlock (by decide) ?_)
  refine Machine.finishes_of_matchBlockHead (n := 1) rfl (Machine.finishes_of_matches k ?_)
  have hend := Machine.finishes_inZeros (1032 * k + 775)
  rw [show 1 + 774 + 1032 * k = 1032 * k + 775 by omega]
  exact hend

/-- A compressor that has a short stream for some zeros, and stores all other data. -/
def sparing (k : Nat) (data : Bytes) : Bytes :=
  if data = List.replicate (1032 * k + 775) 0 then zeroStream k else encode data

theorem sparing_zeros (k : Nat) :
    sparing k (List.replicate (1032 * k + 775) 0) = zeroStream k := if_pos rfl

theorem decodes_sparing (k : Nat) (data : Bytes) : Decodes (sparing k data) data := by
  rw [sparing]
  split
  · rename_i hzeros
    rw [hzeros]
    exact decodes_zeroStream k
  · exact decodes_encode data

end Stowage.Zlib
