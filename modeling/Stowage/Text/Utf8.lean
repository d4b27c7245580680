/-!
# Bytes and text

Bytes are kept as lists. `encode` writes a text as UTF-8 and `decode?` reads bytes back; it refuses
bytes that are no well-formed UTF-8. `decodeLossy` always reads: each maximal part that cannot
begin a character becomes one replacement character.

The main statement is `decode?_eq_some_iff`: reading accepts exactly what writing produces.
-/

namespace Stowage

/-- A sequence of bytes. -/
abbrev Bytes := List UInt8

namespace Text

/-- The UTF-8 form of a text. -/
def encode (s : String) : Bytes :=
  s.toByteArray.data.toList

/-- The text whose UTF-8 form the bytes are, if there is one. -/
def decode? (b : Bytes) : Option String :=
  String.fromUTF8? ⟨b.toArray⟩

theorem decode?_encode (s : String) : decode? (encode s) = some s := by
  have h : (⟨s.toByteArray.data.toList.toArray⟩ : ByteArray) = s.toByteArray := by simp
  simp only [decode?, encode, h, String.fromUTF8?]
  rw [dif_pos s.isValidUTF8]
  rfl

theorem encode_of_decode? {b : Bytes} {s : String} (h : decode? b = some s) : encode s = b := by
  unfold decode? String.fromUTF8? at h
  split at h
  · cases h
    simp [encode, String.fromUTF8]
  · cases h

/-- Reading accepts exactly what writing produces. -/
theorem decode?_eq_some_iff {b : Bytes} {s : String} : decode? b = some s ↔ b = encode s :=
  ⟨fun h => (encode_of_decode? h).symm, fun h => h ▸ decode?_encode s⟩

/-- The bytes that may follow a lead byte, as one inclusive range for each. Empty for a byte that
starts no character of several bytes. The narrow first ranges exclude overlong forms, surrogates
and numbers above the last code point. -/
def followRanges (lead : UInt8) : List (UInt8 × UInt8) :=
  if 0xC2 ≤ lead && lead ≤ 0xDF then [(0x80, 0xBF)]
  else if lead = 0xE0 then [(0xA0, 0xBF), (0x80, 0xBF)]
  else if lead = 0xED then [(0x80, 0x9F), (0x80, 0xBF)]
  else if 0xE1 ≤ lead && lead ≤ 0xEF then [(0x80, 0xBF), (0x80, 0xBF)]
  else if lead = 0xF0 then [(0x90, 0xBF), (0x80, 0xBF), (0x80, 0xBF)]
  else if lead = 0xF4 then [(0x80, 0x8F), (0x80, 0xBF), (0x80, 0xBF)]
  else if 0xF1 ≤ lead && lead ≤ 0xF3 then [(0x80, 0xBF), (0x80, 0xBF), (0x80, 0xBF)]
  else []

/-- How many of the bytes fit the ranges before the first that does not. -/
def fitting : List (UInt8 × UInt8) → Bytes → Nat
  | (low, high) :: ranges, b :: bs => if low ≤ b && b ≤ high then fitting ranges bs + 1 else 0
  | _, _ => 0

/-- The code point spelled by a lead byte that counts for `lead` and its continuation bytes. -/
def codePoint (lead : Nat) (rest : Bytes) : Nat :=
  rest.foldl (fun n b => n * 64 + (b.toNat - 0x80)) lead

/-- The value bits of the lead byte of a character of `n` further bytes. -/
def leadBits (lead : UInt8) (n : Nat) : Nat :=
  if n = 1 then lead.toNat - 0xC0 else if n = 2 then lead.toNat - 0xE0 else lead.toNat - 0xF0

/-- The characters of the bytes, with a replacement character for each maximal part that begins
none. `fuel` bounds the number of characters; the number of bytes is enough. -/
def decodeLossyChars : (fuel : Nat) → Bytes → List Char
  | 0, _ => []
  | _, [] => []
  | fuel + 1, b :: bs =>
    if b < 0x80 then Char.ofNat b.toNat :: decodeLossyChars fuel bs
    else
      let ranges := followRanges b
      let n := fitting ranges bs
      if ranges ≠ [] ∧ n = ranges.length then
        Char.ofNat (codePoint (leadBits b n) (bs.take n)) :: decodeLossyChars fuel (bs.drop n)
      else '\uFFFD' :: decodeLossyChars fuel (bs.drop n)

/-- The text of the bytes, read whatever they are. -/
def decodeLossy (b : Bytes) : String :=
  String.ofList (decodeLossyChars b.length b)

end Text

end Stowage
