import Stowage.Container.Builder
import Stowage.Proofs.Container.Format

/-!
# What is written is read

A number, a record and a cookie are read as they were written, whatever follows them.
For names this needs that they hold no zero byte, and for the name of the library that
it fits into its field; for lengths, that they are numbers of 32 bits.

A table is read back record by record, each at the position where it was written
(`Contents.recordsFrom_encode`).
-/

namespace Stowage

open Result

variable {bytes rest : Bytes} {position n : Nat}

/-! ## Numbers and names -/

namespace Word

theorem at32_encode (n : Nat) (rest : Bytes) : at32 (encode n ++ rest) 0 = n.toUInt32 := by
  rw [at32, List.drop_zero, List.take_append_of_le_length (Nat.le_of_eq (length_encode n).symm),
    List.take_of_length_le (Nat.le_of_eq (length_encode n)), decode_encode]
  refine UInt32.toNat_inj.mp ?_
  show (n % UInt32.size) % 2 ^ 32 = n % 2 ^ 32
  exact Nat.mod_mod n (2 ^ 32)

/-- A number that stands at some position. -/
theorem at32_of_drop {i : Nat} (h : bytes.drop i = encode n ++ rest) : at32 bytes i =
    n.toUInt32 := by
  rw [← Nat.add_zero i, ← at32_drop, h, at32_encode]

end Word

/-- Nothing stands before the first of some zeros. -/
theorem takeWhile_zeros (k : Nat) : (List.replicate k (0 : UInt8)).takeWhile (· ≠ 0) = [] := by
  rw [List.takeWhile_replicate]
  rfl

/-- A name ends at the first of the zeros that follow it. -/
theorem takeWhile_append_zeros {name : Bytes} (h : 0 ∉ name) (k : Nat) :
    (name ++ List.replicate k 0).takeWhile (· ≠ 0) = name := by
  rw [List.takeWhile_append_of_pos, takeWhile_zeros, List.append_nil]
  intro b hb
  refine decide_eq_true ?_
  rintro rfl
  exact h hb

/-! ## Cookies -/

namespace Cookie

theorem length_encodeName (name : String) : (encodeName name).length = nameWidth := by
  have hkept : ((Text.encode name).take (nameWidth - 1)).length ≤ nameWidth :=
    Nat.le_trans (List.length_take_le ..) (Nat.sub_le ..)
  rw [encodeName, List.length_append, List.length_replicate]
  exact Nat.add_sub_cancel' hkept

theorem length_encode (c : Cookie) : c.encode.length = size := by
  rw [encode]
  simp only [List.length_append, Word.length_encode, length_encodeName]
  rfl

/-- The blocks that are written, with the numbers in front of the name. -/
theorem encode_eq (c : Cookie) : c.encode = magic ++ (Word.encode c.containerLength.toNat ++
    (Word.encode c.contentsOffset.toNat ++ (Word.encode c.contentsLength.toNat ++
    (Word.encode c.runtimeVersion.toNat ++ encodeName c.runtimeLibrary)))) := by
  simp only [encode, List.append_assoc]

/-- The field for the library name. -/
def nameField (block : Bytes) : Bytes := block.drop 24

theorem nameField_encode (c : Cookie) : nameField c.encode = encodeName c.runtimeLibrary := by
  rw [nameField, encode_eq]
  rfl

/-- **A cookie is read as it was written**, if the name of its library fits. -/
theorem parse_encode {c : Cookie} (hzero : 0 ∉ Text.encode c.runtimeLibrary)
    (hfits : (Text.encode c.runtimeLibrary).length < nameWidth) : parse c.encode = .ok c := by
  have hname : (encodeName c.runtimeLibrary).takeWhile (· ≠ 0) =
      Text.encode c.runtimeLibrary := by
    rw [encodeName, List.take_of_length_le (by omega), takeWhile_append_zeros hzero]
  have hword (n : UInt32) : n.toNat.toUInt32 = n := UInt32.ofNat_toNat
  refine parse_eq_ok.mpr ⟨?_, ?_, ?_, ?_, ?_, ?_⟩
  · rw [encode_eq, List.take_left]
  · rw [← nameField, nameField_encode, hname, Text.decode?_encode]
  · rw [Word.at32_of_drop (n := c.containerLength.toNat) (by rw [encode_eq]; rfl), hword]
  · rw [Word.at32_of_drop (n := c.contentsOffset.toNat) (by rw [encode_eq]; rfl), hword]
  · rw [Word.at32_of_drop (n := c.contentsLength.toNat) (by rw [encode_eq]; rfl), hword]
  · rw [Word.at32_of_drop (n := c.runtimeVersion.toNat) (by rw [encode_eq]; rfl), hword]

end Cookie

/-! ## Records -/

namespace Record

/-- A record that is read as it was written. -/
structure IsFaithful (r : Record) : Prop where
  name : 0 ∉ Text.encode r.name
  length : r.length.toNat = headerSize + paddedLength (Text.encode r.name)
  kind : EntryKind.ofCode r.kind.code = r.kind

theorem lt_paddedLength (name : Bytes) : name.length < paddedLength name := by
  rw [paddedLength]
  omega

theorem length_encode (r : Record) :
    r.encode.length = headerSize + paddedLength (Text.encode r.name) := by
  have hlt := lt_paddedLength (Text.encode r.name)
  rw [encode]
  simp only [List.length_append, Word.length_encode, List.length_cons, List.length_nil,
    List.length_replicate, headerSize]
  omega

/-- **A record is read as it was written**, whatever follows it. -/
theorem read_encode {r : Record} (h : r.IsFaithful) (position : Nat) (rest : Bytes) :
    read position (r.encode ++ rest) = .ok { r with position := position } := by
  obtain ⟨hname, hlength, hkind⟩ := h
  have hword (n : UInt32) : n.toNat.toUInt32 = n := UInt32.ofNat_toNat
  have hlong : r.encode.length = r.length.toNat := by rw [length_encode, hlength]
  have hencode : r.encode ++ rest = Word.encode r.length.toNat ++ (Word.encode r.offset.toNat ++
      (Word.encode r.storedLength.toNat ++ (Word.encode r.fullLength.toNat ++
      ([if r.isCompressed then 1 else 0, r.kind.code] ++ (Text.encode r.name ++
      (List.replicate (paddedLength (Text.encode r.name) - (Text.encode r.name).length) 0 ++
      rest)))))) := by
    simp only [encode, hlength, List.append_assoc]
  have hat (i n : Nat) {rest' : Bytes} (h : (r.encode ++ rest).drop i = Word.encode n ++ rest') :
      Word.at32 (r.encode ++ rest) i = n.toUInt32 := Word.at32_of_drop h
  have h0 : Word.at32 (r.encode ++ rest) 0 = r.length := by
    rw [hat 0 r.length.toNat (by rw [hencode]; rfl), hword]
  have htext : Text.decode? ((((r.encode ++ rest).take r.length.toNat).drop headerSize).takeWhile
      (· ≠ 0)) = some r.name := by
    have hdrop : r.encode.drop headerSize = Text.encode r.name ++
        List.replicate (paddedLength (Text.encode r.name) - (Text.encode r.name).length) 0 := by
      rw [encode, List.append_assoc]
      rfl
    rw [← hlong, List.take_left, hdrop, takeWhile_append_zeros hname, Text.decode?_encode]
  refine read_eq_ok.mpr ⟨?_, ?_, r.name, ?_, ?_⟩
  · have := lt_paddedLength (Text.encode r.name)
    rw [h0]
    omega
  · rw [h0, List.length_append, hlong]
    exact Nat.le_add_right ..
  · rw [h0, htext]
  · rw [describe, h0, hat 4 r.offset.toNat (by rw [hencode]; rfl),
      hat 8 r.storedLength.toNat (by rw [hencode]; rfl),
      hat 12 r.fullLength.toNat (by rw [hencode]; rfl), hword, hword, hword]
    have hflag : (r.encode ++ rest).drop 16 = (if r.isCompressed then 1 else 0) :: r.kind.code ::
        (Text.encode r.name ++ (List.replicate (paddedLength (Text.encode r.name) -
          (Text.encode r.name).length) 0 ++ rest)) := by
      rw [hencode]
      rfl
    have hcode : (r.encode ++ rest).drop 17 = r.kind.code :: (Text.encode r.name ++
        (List.replicate (paddedLength (Text.encode r.name) - (Text.encode r.name).length) 0 ++
          rest)) := by
      rw [hencode]
      rfl
    rw [hflag, hcode]
    simp only [List.head?_cons, List.headD_cons, hkind]
    cases r with
    | mk position length offset storedLength fullLength isCompressed kind name =>
      cases isCompressed <;> rfl

end Record

/-! ## Tables -/

namespace Contents

/-- Records at the places that they have in a table, from a position on. -/
def placed (position : Nat) : List Record → List Record
  | [] => []
  | r :: rest => { r with position := position } :: placed (position + r.length.toNat) rest

/-- **A table is read as it was written**: record by record, each at its place. -/
theorem recordsFrom_encode {rs : List Record} (h : ∀ r ∈ rs, r.IsFaithful) (position : Nat) :
    recordsFrom position (rs.flatMap Record.encode) = (placed position rs).map .ok := by
  induction rs generalizing position with
  | nil =>
    rw [List.flatMap_nil, recordsFrom, if_pos rfl]
    rfl
  | cons r rs ih =>
    have hr := h r List.mem_cons_self
    have hlength : r.encode.length = r.length.toNat := by
      rw [Record.length_encode, hr.length]
    rw [List.flatMap_cons, recordsFrom_ok (Record.read_encode hr position _)]
    show _ :: recordsFrom (position + r.length.toNat)
      ((r.encode ++ rs.flatMap Record.encode).drop r.length.toNat) = _
    rw [← hlength, List.drop_left, ih fun r' hr' => h r' (List.mem_cons_of_mem _ hr'), hlength]
    rfl

end Contents
end Stowage
