import Stowage.Bytes.Word
import Stowage.Zlib.Checksum
/-!
# Writing zlib streams

The plainest zlib streams are made of stored blocks: the bytes themselves, in pieces of at most
65535 bytes, each after its length and the complement of that.
-/

namespace Stowage.Zlib

/-- The most bytes that a stored block can hold. -/
def maxStored : Nat := 65535

/-- A number below 2^16 as two bytes, the low one first. -/
def twoBytes (n : Nat) : Bytes :=
  [(n % 256).toUInt8, (n / 256 % 256).toUInt8]

/-- One stored block. -/
def storedBlock (isLast : Bool) (bytes : Bytes) : Bytes :=
  (if isLast then 1 else 0) :: twoBytes bytes.length ++ twoBytes (65535 - bytes.length) ++ bytes

/-- Some bytes as a sequence of stored blocks, which has at least one block. -/
def storedBlocks (bytes : Bytes) : Bytes :=
  if _h : bytes.length ≤ maxStored then storedBlock true bytes
  else storedBlock false (bytes.take maxStored) ++ storedBlocks (bytes.drop maxStored)
  termination_by bytes.length
  decreasing_by
    simp only [List.length_drop, maxStored] at *
    omega

/-- A zlib stream that holds the given bytes. -/
def encode (bytes : Bytes) : Bytes :=
  [0x78, 0x01] ++ storedBlocks bytes ++ Word.encode (checksum bytes)

end Stowage.Zlib
