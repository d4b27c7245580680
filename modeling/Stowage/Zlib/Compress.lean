import Stowage.Zlib.CodeLengths
import Stowage.Zlib.Machine
import Stowage.Zlib.Match
import Stowage.Zlib.Stored
/-!
# Writing compressed zlib streams

Every block of tokens is written with codes of its own, which are announced before it. A very short
block uses the fixed codes, and a block that would grow is stored as it is.
-/

namespace Stowage.Zlib

/-- A number in the stream, the lowest bit first. -/
def fieldBits (width value : Nat) : List Bool :=
  (List.range width).map value.testBit

/-- The words of a canonical code, one after the other, from a place in the space of words on. -/
def canonicalWords : (place : Nat) → List (Nat × Nat) → List (Nat × List Bool)
  | _, [] => []
  | place, (length, symbol) :: rest =>
    (symbol, CodeTree.wordOf length (place / CodeTree.share length)) ::
      canonicalWords (place + CodeTree.share length) rest

/-- The word of each symbol in the canonical code with the given lengths. -/
def wordTable (lengths : List Nat) : Array (List Bool) :=
  (canonicalWords 0 (CodeTree.canonicalOrder lengths)).foldl
    (fun table (symbol, word) => table.setIfInBounds symbol word)
    (Array.replicate lengths.length [])

/-- The symbol of a table of ranges into which a value falls, with the bits that complete it. -/
def rangeOf (table : Array (Nat × Nat)) (value : Nat) : Nat × List Bool :=
  let symbol := (table.toList.takeWhile (·.1 ≤ value)).length - 1
  match table[symbol]? with
  | some (least, bits) => (symbol, fieldBits bits (value - least))
  | none => (symbol, [])

namespace Token

/-- The symbol for the end of a block. -/
def endSymbol : Nat := 256

/-- The symbol of the first match length. -/
def firstLength : Nat := 257

/-- The symbol that starts a token, with the bits that complete it. -/
def lead : Token → Nat × List Bool
  | byte value => (value.toNat, [])
  | copy length _ =>
    let (symbol, rest) := rangeOf matchLengths length
    (firstLength + symbol, rest)

/-- The symbol of the distance of a token, with the bits that complete it. -/
def distanceRange? : Token → Option (Nat × List Bool)
  | byte _ => none
  | copy _ distance => some (rangeOf matchDistances distance)

/-- A token as bits, given the words of both codes. -/
def bits (lengths distances : Array (List Bool)) (t : Token) : List Bool :=
  let (symbol, rest) := t.lead
  lengths.getD symbol [] ++ rest ++ match t.distanceRange? with
    | some (symbol, rest) => distances.getD symbol [] ++ rest
    | none => []

end Token

namespace TokenBlock

/-- How often each symbol is used. -/
def weights (count : Nat) (symbols : List Nat) : List Nat :=
  (symbols.foldl (fun all symbol => all.modify symbol (· + 1)) (Array.replicate count 0)).toList

/-- The tokens of a block and its end as bits, given the lengths of the words of both codes. -/
def bodyBits (b : TokenBlock) (lengths distances : List Nat) : List Bool :=
  let lengthWords := wordTable lengths
  let distanceWords := wordTable distances
  b.tokens.flatMap (·.bits lengthWords distanceWords) ++ lengthWords.getD Token.endSymbol []

/-- A number as pieces of at most the given size. -/
def pieces (size n : Nat) : List Nat :=
  List.replicate (n / size) size ++ if n % size = 0 then [] else [n % size]

/-- A run of one length, as symbols of the code in which lengths are written, each with the bits
that complete it. -/
def runSymbols (length count : Nat) : List (Nat × List Bool) :=
  if length = 0 then
    (pieces 138 count).flatMap fun n =>
      if n < 3 then List.replicate n (0, [])
      else if n ≤ 10 then [(17, fieldBits 3 (n - 3))]
      else [(18, fieldBits 7 (n - 11))]
  else (length, []) :: (pieces 6 (count - 1)).flatMap fun n =>
    if n < 3 then List.replicate n (length, []) else [(16, fieldBits 2 (n - 3))]

/-- Lengths as symbols of the code in which they are written. -/
def lengthSymbols (lengths : List Nat) : List (Nat × List Bool) :=
  (lengths.splitBy (· == ·)).flatMap fun run => runSymbols (run.headD 0) run.length

/-- A list without the zeros at its end, but with at least `least` elements. -/
def trimZeros (least : Nat) (xs : List Nat) : List Nat :=
  xs.take (max least (xs.reverse.dropWhile (· = 0)).length)

/-- A block that announces its codes, from the type of the block on. -/
def announcedBits (b : TokenBlock) : List Bool :=
  let lengths := CodeLengths.ofWeights 15
    (weights 286 (Token.endSymbol :: b.tokens.map fun t => t.lead.1))
  let distances := CodeLengths.ofWeights 15
    (weights 30 (b.tokens.filterMap fun t => t.distanceRange?.map (·.1)))
  let lengths := trimZeros 257 lengths
  let distances := trimZeros 1 distances
  let symbols := lengthSymbols (lengths ++ distances)
  let metaLengths := CodeLengths.ofWeights 7 (weights 19 (symbols.map (·.1)))
  let ordered := trimZeros 4 (metaOrder.map fun symbol => metaLengths.getD symbol 0)
  let words := wordTable metaLengths
  fieldBits 2 2 ++ fieldBits 5 (lengths.length - 257) ++ fieldBits 5 (distances.length - 1) ++
    fieldBits 4 (ordered.length - 4) ++ ordered.flatMap (fieldBits 3) ++
    symbols.flatMap (fun (symbol, rest) => words.getD symbol [] ++ rest) ++
    b.bodyBits lengths distances

/-- A block with the fixed codes, from the type of the block on. -/
def fixedBits (b : TokenBlock) : List Bool :=
  fieldBits 2 1 ++ b.bodyBits fixedLengths fixedDistances

/-- A stored block, from the type of the block on, when some bits stand before it. -/
def storedBits (b : TokenBlock) (before : Nat) : List Bool :=
  fieldBits 2 0 ++ List.replicate ((14 - before % 8) % 8) false ++
    fieldBits 16 b.bytes.length ++ fieldBits 16 (maxStored - b.bytes.length) ++
    b.bytes.flatMap fun c => fieldBits 8 c.toNat

/-- A block that stands for fewer bytes uses the fixed codes. -/
def leastAnnounced : Nat := 48

/-- A block that stands for no more bytes is never stored. -/
def mostUnstored : Nat := 32

/-- A block as bits, when some bits stand before it. -/
def bits (b : TokenBlock) (isLast : Bool) (before : Nat) : List Bool :=
  let before := before + 1
  let coded := if b.bytes.length < leastAnnounced then b.fixedBits else b.announcedBits
  let grown := (before + coded.length) / 8 - before / 8 + 1
  isLast :: if mostUnstored < b.bytes.length && b.bytes.length ≤ grown then b.storedBits before
    else coded

/-- Blocks as bits, when some bits stand before them. -/
def allBits (before : Nat) : List TokenBlock → List Bool
  | [] => []
  | [b] => b.bits true before
  | b :: rest =>
    let first := b.bits false before
    first ++ allBits (before + first.length) rest

end TokenBlock

/-- The number whose bits are given, the lowest first. -/
def ofBits : List Bool → Nat
  | [] => 0
  | bit :: rest => bit.toNat + 2 * ofBits rest

/-- Bits as bytes; the last byte is filled up with zeros. The budget is the number of bits. -/
def packBits : (budget : Nat) → List Bool → Bytes
  | 0, _ => []
  | _, [] => []
  | budget + 1, bits => (ofBits (bits.take 8)).toUInt8 :: packBits budget (bits.drop 8)

/-- A compressed zlib stream that holds the given bytes. -/
def compress (bytes : Bytes) : Bytes :=
  let bits := TokenBlock.allBits 16 (tokenBlocks bytes)
  [0x78, 0x9c] ++ packBits bits.length bits ++ Word.encode (checksum bytes)

end Stowage.Zlib
