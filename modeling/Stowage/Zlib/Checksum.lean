import Stowage.Text.Utf8
/-!
# The checksum of a zlib stream

Two sums modulo the largest prime below 2^16: the bytes, starting from one, and the successive
values of the first sum.
-/

namespace Stowage.Zlib

/-- The two running sums of the checksum. -/
structure Checksum where
  low : Nat
  high : Nat
  deriving DecidableEq, Repr

namespace Checksum

/-- The largest prime below 2^16. -/
def modulus : Nat := 65521

/-- The sums of no bytes. -/
def start : Checksum := ⟨1, 0⟩

/-- The sums after one more byte. -/
def add (c : Checksum) (b : UInt8) : Checksum :=
  let low := (c.low + b.toNat) % modulus
  ⟨low, (c.high + low) % modulus⟩

/-- The sums after more bytes. -/
def addAll (c : Checksum) (bytes : Bytes) : Checksum :=
  bytes.foldl add c

/-- Both sums in one 32-bit number. -/
def value (c : Checksum) : Nat := c.high * 65536 + c.low

end Checksum

/-- The checksum of some bytes. -/
def checksum (bytes : Bytes) : Nat :=
  (Checksum.start.addAll bytes).value

end Stowage.Zlib
