import Stowage.Text.Utf8
/-!
# Numbers as bytes

A number below 2^32 is written as four bytes with the highest byte first. `decode` reads such bytes
and gives back what `encode` has written.
-/

namespace Stowage.Word

/-- A number as four bytes, the highest first. Only its lowest 32 bits count. -/
def encode (n : Nat) : Bytes :=
  [(n / 16777216).toUInt8, (n / 65536).toUInt8, (n / 256).toUInt8, n.toUInt8]

/-- The number that some bytes stand for, the highest byte first. -/
def decode (bytes : Bytes) : Nat :=
  bytes.foldl (fun n b => n * 256 + b.toNat) 0

/-- The four bytes at a position, as a number. -/
def at32 (bytes : Bytes) (position : Nat) : UInt32 :=
  (decode ((bytes.drop position).take 4)).toUInt32

theorem length_encode (n : Nat) : (encode n).length = 4 := rfl

theorem decode_encode (n : Nat) : decode (encode n) = n % UInt32.size := by
  simp only [decode, encode, List.foldl_cons, List.foldl_nil, Nat.toUInt8_eq,
    UInt8.toNat_ofNat', UInt32.size]
  omega

end Stowage.Word
