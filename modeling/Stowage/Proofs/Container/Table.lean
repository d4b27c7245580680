import Stowage.Container.Archive
import Stowage.Proofs.Result

/-!
# Which tables are read to the end

A table of contents is well formed (`IsTable`) when it is cut into records, each of which
gives its own length and names its entry in UTF-8 (`IsRecord`).  The reader does not know
where a record ends before it has read its length; it reads exactly the well-formed tables
without an error (`isTable_iff`), and `Contents.checked` collects their records.
-/

namespace Stowage

variable {bytes rest table : Bytes} {position : Nat}

namespace Word

theorem at32_append {i : Nat} (h : i + 4 ≤ bytes.length) :
    at32 (bytes ++ rest) i = at32 bytes i := by
  rw [at32, at32, List.drop_append_of_le_length (by omega), List.take_append_of_le_length]
  rw [List.length_drop]
  omega

theorem at32_drop {start i : Nat} : at32 (bytes.drop start) i = at32 bytes (start + i) := by
  rw [at32, at32, List.drop_drop]

theorem at32_take {stop i : Nat} (h : i + 4 ≤ stop) : at32 (bytes.take stop) i = at32 bytes i := by
  rw [at32, at32, List.drop_take, List.take_take, Nat.min_eq_left (by omega)]

end Word

namespace Text

/-- The bytes are the UTF-8 form of some text. -/
def IsText (bytes : Bytes) : Prop := ∃ s, bytes = encode s

/-- A text with a zero is written with a zero. -/
theorem zero_mem_encode {s : String} (h : '\x00' ∈ s.toList) : 0 ∈ encode s := by
  rw [encode, ← String.utf8Encode_toList, List.utf8Encode, List.toList_data_toByteArray,
    List.mem_flatMap]
  exact ⟨_, h, by decide⟩

end Text

/-! ## Single records -/

/-- The bytes of a record: its header, its name up to the first zero, and what follows. -/
structure IsRecord (bytes : Bytes) : Prop where
  long : Record.headerSize < bytes.length
  length : (Word.at32 bytes 0).toNat = bytes.length
  text : Text.IsText ((bytes.drop Record.headerSize).takeWhile (· ≠ 0))

namespace Record

/-- The record that a header and a name stand for. -/
def describe (position : Nat) (rest : Bytes) (name : String) : Record where
  position := position
  length := Word.at32 rest 0
  offset := Word.at32 rest 4
  storedLength := Word.at32 rest 8
  fullLength := Word.at32 rest 12
  isCompressed := (rest.drop 16).head? != some 0
  kind := .ofCode ((rest.drop 17).headD 0)
  name := name

/-- A record is read if its length is longer than a header and no longer than what is
left, and its name is text. -/
theorem read_eq_ok {r : Record} : read position rest = .ok r ↔
    headerSize < (Word.at32 rest 0).toNat ∧ (Word.at32 rest 0).toNat ≤ rest.length ∧
      ∃ name, Text.decode? (((rest.take (Word.at32 rest 0).toNat).drop headerSize).takeWhile
        (· ≠ 0)) = some name ∧ r = describe position rest name := by
  rw [read]
  by_cases hcut : rest.length < headerSize
  · rw [if_pos hcut]
    refine ⟨fun h => (by cases h), ?_⟩
    rintro ⟨hlong, hle, -⟩
    omega
  by_cases hshort : (Word.at32 rest 0).toNat ≤ headerSize
  · rw [if_neg hcut, if_pos hshort]
    refine ⟨fun h => (by cases h), ?_⟩
    rintro ⟨hlong, -⟩
    omega
  by_cases hover : rest.length < (Word.at32 rest 0).toNat
  · rw [if_neg hcut, if_neg hshort, if_pos hover]
    refine ⟨fun h => (by cases h), ?_⟩
    rintro ⟨-, hle, -⟩
    omega
  rw [if_neg hcut, if_neg hshort, if_neg hover]
  cases Text.decode? (((rest.take (Word.at32 rest 0).toNat).drop headerSize).takeWhile
      (· ≠ 0)) with
  | none =>
    refine ⟨fun h => (by cases h), ?_⟩
    rintro ⟨-, -, name, h, -⟩
    cases h
  | some name =>
    refine ⟨fun h => ?_, ?_⟩
    · cases h
      exact ⟨by omega, by omega, name, rfl, rfl⟩
    · rintro ⟨-, -, name', h, rfl⟩
      cases h
      rfl

/-- What starts with a record is read. -/
theorem read_append (h : IsRecord bytes) (position : Nat) (rest : Bytes) :
    ∃ r, read position (bytes ++ rest) = .ok r ∧ r.length.toNat = bytes.length := by
  obtain ⟨hlong, hlength, name, htext⟩ := h
  have hword : Word.at32 (bytes ++ rest) 0 = Word.at32 bytes 0 := by
    refine Word.at32_append ?_
    rw [headerSize] at hlong
    omega
  refine ⟨describe position (bytes ++ rest) name, read_eq_ok.mpr ?_, ?_⟩
  · rw [hword, hlength, List.take_left, htext, List.length_append]
    exact ⟨hlong, Nat.le_add_right .., name, Text.decode?_encode name, rfl⟩
  · show (Word.at32 (bytes ++ rest) 0).toNat = bytes.length
    rw [hword, hlength]

/-- A name ends at its first zero. -/
theorem zero_not_mem_name {r : Record} (h : read position rest = .ok r) :
    '\x00' ∉ r.name.toList := by
  obtain ⟨-, -, name, hname, rfl⟩ := read_eq_ok.mp h
  intro hzero
  have hmem := Text.zero_mem_encode hzero
  rw [show (describe position rest name).name = name from rfl, Text.encode_of_decode? hname] at hmem
  have hne := List.all_eq_true.mp List.all_takeWhile _ hmem
  simp at hne

/-- What is read starts with a record. -/
theorem isRecord_of_read {r : Record} (h : read position rest = .ok r) :
    IsRecord (rest.take r.length.toNat) := by
  obtain ⟨hlong, hle, name, hname, rfl⟩ := read_eq_ok.mp h
  have hlength : (rest.take (Word.at32 rest 0).toNat).length = (Word.at32 rest 0).toNat :=
    List.length_take_of_le hle
  refine ⟨?_, ?_, name, Text.decode?_eq_some_iff.mp hname⟩
  · show headerSize < (rest.take (Word.at32 rest 0).toNat).length
    rwa [hlength]
  · show (Word.at32 (rest.take (Word.at32 rest 0).toNat) 0).toNat =
      (rest.take (Word.at32 rest 0).toNat).length
    rw [hlength, Word.at32_take]
    rw [headerSize] at hlong
    omega

end Record

/-! ## Tables -/

/-- A table is a sequence of records. -/
inductive IsTable : Bytes → Prop
  | nil : IsTable []
  | append {bytes rest : Bytes} : IsRecord bytes → IsTable rest → IsTable (bytes ++ rest)

namespace Contents

theorem recordsFrom_ok {r : Record} (h : Record.read position rest = .ok r) :
    recordsFrom position rest =
      .ok r :: recordsFrom (position + r.length.toNat) (rest.drop r.length.toNat) := by
  have hne : rest ≠ [] := by
    rintro rfl
    have := Record.length_of_read h
    simp only [Record.headerSize, List.length_nil] at this
    omega
  rw [recordsFrom, if_neg hne]
  split
  · rename_i r' hr
    rw [h] at hr
    cases hr
    rfl
  · rename_i e he
    rw [h] at he
    cases he

theorem recordsFrom_error {e : Malformation} (hne : rest ≠ [])
    (h : Record.read position rest = .error e) : recordsFrom position rest = [.error e] := by
  rw [recordsFrom, if_neg hne]
  split
  · rename_i r hr
    rw [h] at hr
    cases hr
  · rename_i e' he
    rw [h] at he
    cases he
    rfl

/-- A record of a table has been read somewhere, and not before the position of the table. -/
theorem exists_read_of_mem {r : Record} (h : .ok r ∈ recordsFrom position rest) :
    ∃ later rest', position ≤ later ∧ Record.read later rest' = .ok r := by
  induction position, rest using recordsFrom.induct with
  | case1 position =>
    rw [recordsFrom, if_pos rfl] at h
    cases h
  | case2 position rest hrest first hread ih =>
    rw [recordsFrom_ok hread] at h
    rcases List.mem_cons.mp h with hr | hr
    · cases hr
      exact ⟨position, rest, Nat.le_refl _, hread⟩
    · obtain ⟨later, rest', hle, hread'⟩ := ih hr
      exact ⟨later, rest', Nat.le_trans (Nat.le_add_right ..) hle, hread'⟩
  | case3 position rest hrest e hread =>
    rw [recordsFrom_error hrest hread] at h
    simp at h

/-- The records of a well-formed table are read without an error. -/
theorem isOk_of_isTable (h : IsTable table) (position : Nat) :
    ∀ e ∈ recordsFrom position table, ∃ r, e = .ok r := by
  induction h generalizing position with
  | nil =>
    intro e he
    rw [recordsFrom, if_pos rfl] at he
    cases he
  | @append bytes rest hbytes hrest ih =>
    obtain ⟨r, hr, hlength⟩ := Record.read_append hbytes position rest
    rw [recordsFrom_ok hr, hlength, List.drop_left]
    intro e he
    rcases List.mem_cons.mp he with rfl | he
    · exact ⟨r, rfl⟩
    · exact ih _ e he

/-- What is read without an error is a well-formed table. -/
theorem isTable_of_isOk (h : ∀ e ∈ recordsFrom position table, ∃ r, e = .ok r) :
    IsTable table := by
  induction position, table using recordsFrom.induct with
  | case1 position => exact .nil
  | case2 position table hne r hr ih =>
    rw [recordsFrom_ok hr] at h
    rw [← List.take_append_drop r.length.toNat table]
    exact .append (Record.isRecord_of_read hr) (ih fun e he => h e (List.mem_cons_of_mem _ he))
  | case3 position table hne e he =>
    obtain ⟨r, hr⟩ := h (.error e) (by simp [recordsFrom_error hne he])
    cases hr

/-- **The tables that are read to the end** are the well-formed ones. -/
theorem isTable_iff : IsTable table ↔ ∀ e ∈ records table, ∃ r, e = .ok r :=
  ⟨fun h => isOk_of_isTable h 0, isTable_of_isOk⟩

/-! ### Collecting the records -/

theorem mapM_id_eq_ok {ε α : Type} {results : List (Except ε α)} {as : List α} :
    results.mapM id = .ok as ↔ results = as.map .ok := by
  induction results generalizing as with
  | nil =>
    cases as with
    | nil => exact ⟨fun _ => rfl, fun _ => rfl⟩
    | cons a as => exact ⟨fun h => (by cases h), fun h => (by cases h)⟩
  | cons x results ih =>
    rw [List.mapM_cons]
    constructor
    · intro h
      obtain ⟨a, hx, h⟩ := Result.bind_eq_ok.mp h
      obtain ⟨as', hrest, h⟩ := Result.bind_eq_ok.mp h
      cases h
      rw [id] at hx
      rw [hx, ih.mp hrest]
      rfl
    · intro h
      cases as with
      | nil => cases h
      | cons a as =>
        rw [List.map_cons, List.cons.injEq] at h
        exact Result.bind_eq_ok.mpr ⟨a, h.1, Result.bind_eq_ok.mpr ⟨as, ih.mpr h.2, rfl⟩⟩

@[simp] theorem sound_map_ok {ε α : Type} (as : List α) :
    sound (as.map (.ok : α → Except ε α)) = as := by
  induction as with
  | nil => rfl
  | cons a as ih => rw [List.map_cons, sound, ih]

theorem map_ok_sound {ε α : Type} {results : List (Except ε α)}
    (h : ∀ e ∈ results, ∃ a, e = .ok a) : (sound results).map .ok = results := by
  induction results with
  | nil => rfl
  | cons x results ih =>
    obtain ⟨a, rfl⟩ := h x List.mem_cons_self
    rw [sound, List.map_cons, ih fun e he => h e (List.mem_cons_of_mem _ he)]

/-- A table is checked without an error if it is well formed, and then gives its records. -/
theorem checked_eq_ok {rs : List Record} :
    checked table = .ok rs ↔ IsTable table ∧ rs = sound (records table) := by
  rw [checked, mapM_id_eq_ok, isTable_iff]
  constructor
  · intro h
    rw [h, sound_map_ok]
    refine ⟨fun e he => ?_, rfl⟩
    obtain ⟨r, -, rfl⟩ := List.mem_map.mp he
    exact ⟨r, rfl⟩
  · rintro ⟨h, rfl⟩
    exact (map_ok_sound h).symm

end Contents

/-- The check of a table tells whether one of its records has to be on disk. -/
theorem Archive.checkTable_eq_ok {needed : Bool} :
    checkTable table = .ok needed ↔ IsTable table ∧
      needed = (Contents.sound (Contents.records table)).any (·.kind.isExtractable) := by
  rw [checkTable, Result.mapError_eq_ok]
  constructor
  · intro h
    cases hc : Contents.checked table with
    | error e => rw [hc] at h; cases h
    | ok rs =>
      rw [hc] at h
      cases h
      obtain ⟨htable, rfl⟩ := Contents.checked_eq_ok.mp hc
      exact ⟨htable, rfl⟩
  · rintro ⟨htable, rfl⟩
    rw [Contents.checked_eq_ok.mpr ⟨htable, rfl⟩]
    rfl

end Stowage
