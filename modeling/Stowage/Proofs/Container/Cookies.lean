import Stowage.Proofs.Container.Codec

/-!
# Where writing and reading a cookie are inverse

The field for the library name has 64 bytes.  A name is written with at most 63 of them, and it
is read up to the first zero, or to the end of the field if there is none.  So the two are not
inverse everywhere, and this module says where they are: a cookie is read as it was written if
its name fits and has no zero (`parse_encode_iff`), and a block is written as it was read if its
name is followed by zeros to the end (`encode_eq_iff`).  A block need not be written as it was
read for its cookie to be read again (`inverse_iff_name_ends`).

Apart from the name nothing is lost either way: four bytes are a number and a number is four
bytes (`Word.encode_at32`), so only the two fields have to be compared (`Cookie.block_eq`).
-/

namespace Stowage

variable {bytes block field : Bytes}

/-! ## Numbers -/

namespace Word

/-- Only the lowest 32 bits of a number are written. -/
theorem encode_mod (n : Nat) : encode (n % UInt32.size) = encode n := by
  simp only [encode, List.cons.injEq, and_true, ← UInt8.toNat_inj, Nat.toUInt8_eq,
    UInt8.toNat_ofNat', UInt32.size]
  omega

/-- Four bytes are written as they were read. -/
theorem encode_decode (h : bytes.length = 4) : encode (decode bytes) = bytes := by
  match bytes, h with
  | [a, b, c, d], _ =>
    have ha := a.toNat_lt
    have hb := b.toNat_lt
    have hc := c.toNat_lt
    have hd := d.toNat_lt
    simp only [encode, decode, List.foldl_cons, List.foldl_nil, List.cons.injEq, and_true,
      ← UInt8.toNat_inj, Nat.toUInt8_eq, UInt8.toNat_ofNat']
    omega

theorem encode_at32 {i : Nat} (h : i + 4 ≤ bytes.length) :
    encode (at32 bytes i).toNat = (bytes.drop i).take 4 := by
  have hfour : ((bytes.drop i).take 4).length = 4 := by
    rw [List.length_take, List.length_drop]
    omega
  calc encode (at32 bytes i).toNat
      = encode (decode ((bytes.drop i).take 4) % UInt32.size) := rfl
    _ = (bytes.drop i).take 4 := by rw [encode_mod, encode_decode hfour]

end Word

/-! ## Names -/

namespace Text

/-- A character is written with a zero only if it is the one with the code zero. -/
theorem zero_mem_utf8EncodeChar {c : Char} (h : 0 ∈ String.utf8EncodeChar c) : c = '\x00' := by
  have hcode : c.val.toNat = 0 := by
    simp only [String.utf8EncodeChar] at h
    -- the bytes of a longer form all have their highest bit set
    repeat' split at h
    all_goals
      simp only [List.mem_cons, List.not_mem_nil, or_false, ← UInt8.toNat_inj,
        UInt8.toNat_ofNat', UInt8.toNat_zero] at h
      omega
  exact Char.ext (UInt32.toNat_inj.mp hcode)

/-- A text is written with a zero exactly if it has the character with the code zero. -/
theorem zero_mem_encode_iff {s : String} : 0 ∈ encode s ↔ '\x00' ∈ s.toList := by
  refine ⟨fun h => ?_, zero_mem_encode⟩
  rw [encode, ← String.utf8Encode_toList, List.utf8Encode, List.toList_data_toByteArray,
    List.mem_flatMap] at h
  obtain ⟨c, hc, hzero⟩ := h
  exact zero_mem_utf8EncodeChar hzero ▸ hc

end Text

/-! ## Fields that end in zeros -/

/-- What stands before the first zero has no zero. -/
theorem zero_notMem_takeWhile (bytes : Bytes) : 0 ∉ bytes.takeWhile (· ≠ 0) := by
  intro h
  have hne := List.all_eq_true.mp List.all_takeWhile _ h
  simp at hne

/-- The zeros after a name are not read. -/
theorem takeWhile_append_replicate (name : Bytes) (n : Nat) :
    (name ++ List.replicate n 0).takeWhile (· ≠ 0) = name.takeWhile (· ≠ 0) := by
  rw [List.takeWhile_append, takeWhile_zeros, List.append_nil]
  split
  · rename_i hall
    exact ((List.takeWhile_prefix _).eq_of_length hall).symm
  · rfl

/-- What stands before the first zero is shorter if there is a zero. -/
theorem length_takeWhile_lt_iff :
    (bytes.takeWhile (· ≠ 0)).length < bytes.length ↔ 0 ∈ bytes := by
  rw [List.takeWhile_eq_take_findIdx_not, List.length_take_of_le List.findIdx_le_length,
    List.findIdx_lt_length]
  simp

namespace Cookie

variable {c : Cookie}

/-- A field holds a name that is followed by zeros to the end, and by one at least. -/
def IsPadded (field : Bytes) : Prop :=
  ∃ name n, 0 ∉ name ∧ field = name ++ List.replicate (n + 1) 0

theorem encodeName_takeWhile (name : String) : (encodeName name).takeWhile (· ≠ 0) =
    ((Text.encode name).take (nameWidth - 1)).takeWhile (· ≠ 0) :=
  takeWhile_append_replicate _ _

/-- **A field is written as it was read** exactly if it is padded. -/
theorem encodeName_eq_iff {name : String} (hlength : field.length = nameWidth)
    (hname : Text.encode name = field.takeWhile (· ≠ 0)) :
    encodeName name = field ↔ IsPadded field := by
  constructor
  · intro h
    have hkept : ((Text.encode name).take (nameWidth - 1)).length ≤ nameWidth - 1 :=
      List.length_take_le ..
    refine ⟨(Text.encode name).take (nameWidth - 1),
      nameWidth - 1 - ((Text.encode name).take (nameWidth - 1)).length, ?_, ?_⟩
    · intro hzero
      rw [hname] at hzero
      exact zero_notMem_takeWhile field (List.mem_of_mem_take hzero)
    · rw [← Nat.sub_add_comm hkept]
      exact h.symm
  · rintro ⟨before, n, hzero, rfl⟩
    rw [takeWhile_append_zeros hzero] at hname
    rw [List.length_append, List.length_replicate] at hlength
    have hfits : before.length ≤ nameWidth - 1 := by omega
    rw [encodeName, hname, List.take_of_length_le hfits]
    congr 2
    omega

/-! ## Whole cookies -/

/-- A block that holds a cookie consists of what the cookie says and its field. -/
theorem block_eq (hlength : block.length = size) (h : parse block = .ok c) :
    block = magic ++ (Word.encode c.containerLength.toNat ++
      (Word.encode c.contentsOffset.toNat ++ (Word.encode c.contentsLength.toNat ++
      (Word.encode c.runtimeVersion.toNat ++ nameField block)))) := by
  obtain ⟨hmagic, -, h₁, h₂, h₃, h₄⟩ := parse_eq_ok.mp h
  have hword {i : Nat} (hi : i + 4 ≤ size) :
      Word.encode (Word.at32 block i).toNat ++ block.drop (i + 4) = block.drop i := by
    rw [Word.encode_at32 (hlength ▸ hi), ← List.drop_drop, List.take_append_drop]
  rw [h₁, h₂, h₃, h₄, nameField, hword (i := 20) (by decide), hword (i := 16) (by decide),
    hword (i := 12) (by decide), hword (i := 8) (by decide)]
  exact (List.take_append_drop 8 block).symm.trans (congrArg (· ++ block.drop 8) hmagic)

theorem length_nameField (h : block.length = size) : (nameField block).length = nameWidth := by
  rw [nameField, List.length_drop, h]
  rfl

/-- What a cookie says of its library stands in the field, up to the first zero. -/
theorem encode_runtimeLibrary (h : parse block = .ok c) :
    Text.encode c.runtimeLibrary = (nameField block).takeWhile (· ≠ 0) :=
  Text.encode_of_decode? (parse_eq_ok.mp h).2.1

/-- **A cookie is read as it was written** exactly if its name fits and has no zero. -/
theorem parse_encode_iff : parse c.encode = .ok c ↔
    (Text.encode c.runtimeLibrary).length < nameWidth ∧ 0 ∉ Text.encode c.runtimeLibrary := by
  refine ⟨fun h => ?_, fun ⟨hfits, hzero⟩ => parse_encode hzero hfits⟩
  have hread := encode_runtimeLibrary h
  rw [nameField_encode, encodeName_takeWhile] at hread
  refine ⟨?_, hread ▸ zero_notMem_takeWhile _⟩
  have hprefix := List.takeWhile_prefix (l := (Text.encode c.runtimeLibrary).take (nameWidth - 1))
    (· ≠ 0)
  calc (Text.encode c.runtimeLibrary).length
      ≤ ((Text.encode c.runtimeLibrary).take (nameWidth - 1)).length :=
        Nat.le_trans (Nat.le_of_eq (congrArg List.length hread)) hprefix.length_le
    _ ≤ nameWidth - 1 := List.length_take_le ..
    _ < nameWidth := by decide

/-- **A block is written as it was read** exactly if its field is padded. -/
theorem encode_eq_iff (hlength : block.length = size) (h : parse block = .ok c) :
    c.encode = block ↔ IsPadded (nameField block) := by
  rw [← encodeName_eq_iff (length_nameField hlength) (encode_runtimeLibrary h)]
  constructor
  · intro heq
    rw [← nameField_encode, heq]
  · intro heq
    rw [encode_eq, heq, ← block_eq hlength h]

/-- **Where cookies and their blocks are inverse.**  Every cookie is read as it was written exactly
if the name of its library has at most 63 bytes and no zero.  Every block that holds a cookie is
written as it was read exactly if its name is followed by zeros to the end, one at least; and the
cookie is then read again exactly if the field has any zero. -/
theorem inverse_iff_name_ends :
    (∀ c : Cookie, parse c.encode = .ok c ↔
      (Text.encode c.runtimeLibrary).length ≤ 63 ∧ '\x00' ∉ c.runtimeLibrary.toList) ∧
    ∀ (block : Bytes) (c : Cookie), block.length = size → parse block = .ok c →
      (c.encode = block ↔ IsPadded (nameField block)) ∧
        (parse c.encode = .ok c ↔ 0 ∈ nameField block) := by
  refine ⟨fun c => ?_, fun block c hlength h => ⟨encode_eq_iff hlength h, ?_⟩⟩
  · rw [parse_encode_iff, Text.zero_mem_encode_iff]
    exact and_congr_left' Nat.lt_succ_iff
  · rw [parse_encode_iff, encode_runtimeLibrary h, ← length_nameField hlength,
      length_takeWhile_lt_iff]
    exact and_iff_left (zero_notMem_takeWhile _)

/-- A block with the given field and zeros for numbers. -/
def blockWith (field : Bytes) : Bytes := magic ++ List.replicate 16 0 ++ field

/-- A field in which something stands after the name, and one that a name fills: its last
character takes two bytes, of which only one would be written. -/
theorem inverse_iff_name_ends_remains :
    let remains := blockWith (Text.encode "a" ++ [0, 98] ++ List.replicate 61 0)
    let short : Cookie := ⟨0, 0, 0, 0, "a"⟩
    let filled := blockWith (List.replicate 62 97 ++ Text.encode "é")
    let long : Cookie := ⟨0, 0, 0, 0, String.ofList (List.replicate 62 'a') ++ "é"⟩
    (parse remains = .ok short ∧ ¬IsPadded (nameField remains) ∧ parse short.encode = .ok short) ∧
      parse filled = .ok long ∧ 0 ∉ nameField filled ∧ parse long.encode ≠ .ok long := by
  intro remains short filled long
  have hremains : parse remains = .ok short := by decide +kernel
  have hfilled : parse filled = .ok long := by decide +kernel
  obtain ⟨hwritten, hreread⟩ := inverse_iff_name_ends.2 remains short (by decide) hremains
  have hfull : 0 ∉ nameField filled := by decide +kernel
  refine ⟨⟨hremains, ?_, hreread.mpr (by decide +kernel)⟩, hfilled, hfull, ?_⟩
  · exact mt hwritten.mpr (by decide +kernel)
  · exact mt (inverse_iff_name_ends.2 filled long (by decide) hfilled).2.mp hfull

end Cookie

end Stowage
