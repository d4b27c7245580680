import Stowage.Proofs.Container.Table

/-!
# Stepping through a table of contents

The lengths of the records come from the file, and they are what moves the cursor.  This
module follows it over every sequence of bytes.  A step takes one element from what is still
to come (`Cursor.pending_next`), so the calls give the elements of `Contents.records` one by
one; the accesses of a step are checked in `Record.readAt?`, and none of them fails.

What the cursor gives is then compared with the grammar: a table is a sequence of records, and
since a record begins with its own length, two sequences that begin the same table agree as far
as both go (`IsRecord.eq_of_isPrefix`).  The cursor reads the longest of them
(`Cursor.parses`).
-/

namespace Stowage

variable {table rest bytes : Bytes} {blocks others : List Bytes} {position : Nat}

/-! ## Reading within the bounds -/

/-- The bytes from one place up to another, if both lie within them in this order. -/
def slice? (bytes : Bytes) (start stop : Nat) : Option Bytes :=
  if start ≤ stop ∧ stop ≤ bytes.length then some ((bytes.take stop).drop start) else none

/-- A part of what is left from a position on. -/
theorem slice?_add {start stop : Nat} (horder : start ≤ stop)
    (hstop : position + stop ≤ bytes.length) :
    slice? bytes (position + start) (position + stop) =
      some (((bytes.drop position).take stop).drop start) := by
  rw [slice?, if_pos (by omega), List.drop_take, List.drop_take, List.drop_drop,
    Nat.add_sub_add_left]

/-- The bytes before the first zero are there, also if there is no zero. -/
theorem slice?_findIdx : slice? bytes 0 (bytes.findIdx (· = 0)) =
    some (bytes.takeWhile (· ≠ 0)) := by
  rw [slice?, if_pos ⟨Nat.zero_le _, List.findIdx_le_length⟩, List.drop_zero,
    List.takeWhile_eq_take_findIdx_not]
  simp

namespace Word

/-- The four bytes at a position, if they are there, as a number. -/
def at32? (bytes : Bytes) (i : Nat) : Option UInt32 := do
  let b₀ ← bytes[i]?
  let b₁ ← bytes[i + 1]?
  let b₂ ← bytes[i + 2]?
  let b₃ ← bytes[i + 3]?
  some (decode [b₀, b₁, b₂, b₃]).toUInt32

theorem at32?_eq {i : Nat} (h : i + 4 ≤ bytes.length) : at32? bytes i = some (at32 bytes i) := by
  have hfour : (bytes.drop i).take 4 = [bytes[i], bytes[i + 1], bytes[i + 2], bytes[i + 3]] := by
    rw [List.drop_eq_getElem_cons (by omega), List.drop_eq_getElem_cons (by omega),
      List.drop_eq_getElem_cons (by omega), List.drop_eq_getElem_cons (by omega)]
    rfl
  rw [at32?, at32, hfour, List.getElem?_eq_getElem (by omega), List.getElem?_eq_getElem (by omega),
    List.getElem?_eq_getElem (by omega), List.getElem?_eq_getElem (by omega)]
  rfl

end Word

namespace Record

/-- The record at a position of a table and the position after it, where every access has
to lie within the bytes: nothing is read beyond their end. -/
def readAt? (table : Bytes) (position : Nat) : Option (Except Malformation (Record × Nat)) :=
  if table.length < position then none
  else if table.length - position < headerSize then
    some (.error (.recordCut position (table.length - position)))
  else do
    let header ← slice? table position (position + headerSize)
    let length ← Word.at32? header 0
    if length.toNat ≤ headerSize then
      some (.error (.recordTooShort position length.toNat))
    else if table.length < position + length.toNat then
      some (.error (.recordOverrun position length.toNat))
    else
      let field ← slice? table (position + headerSize) (position + length.toNat)
      let name ← slice? field 0 (field.findIdx (· = 0))
      match Text.decode? name with
      | none => some (.error (.recordNameNotText position))
      | some name =>
        let offset ← Word.at32? header 4
        let storedLength ← Word.at32? header 8
        let fullLength ← Word.at32? header 12
        let flag : UInt8 ← header[16]?
        let code : UInt8 ← header[17]?
        some (.ok ({
          position, length, offset, storedLength, fullLength
          isCompressed := flag != 0
          kind := .ofCode code
          name }, position + length.toNat))

theorem at32?_header {i : Nat} (h : headerSize ≤ bytes.length) (hi : i + 4 ≤ headerSize) :
    Word.at32? (bytes.take headerSize) i = some (Word.at32 bytes i) := by
  rw [Word.at32?_eq (by rwa [List.length_take_of_le h]), Word.at32_take hi]

theorem getElem?_header {i : Nat} (h : headerSize ≤ bytes.length) (hi : i < headerSize) :
    (bytes.take headerSize)[i]? = some ((bytes.drop i).headD 0) := by
  rw [List.getElem?_take_of_lt hi, List.headD_eq_head?_getD, List.head?_drop,
    List.getElem?_eq_getElem (Nat.lt_of_lt_of_le hi h)]
  rfl

/-- **No access is out of bounds**: from every position in the table, reading with checked
accesses has a result, and it is what reading the rest of the table gives. -/
theorem readAt?_eq (h : position ≤ table.length) :
    readAt? table position = some ((read position (table.drop position)).map fun r =>
      (r, position + r.length.toNat)) := by
  have hlength : (table.drop position).length = table.length - position := List.length_drop
  rw [readAt?, read, if_neg (Nat.not_lt.mpr h), hlength]
  by_cases hcut : table.length - position < headerSize
  · rw [if_pos hcut, if_pos hcut]
    rfl
  have hthere : headerSize ≤ (table.drop position).length := by omega
  have hheader : slice? table position (position + headerSize) =
      some ((table.drop position).take headerSize) :=
    slice?_add (Nat.zero_le _) (by omega)
  rw [if_neg hcut, if_neg hcut, hheader]
  simp only [Option.bind_eq_bind, Option.bind_some,
    at32?_header hthere (show 0 + 4 ≤ headerSize by decide)]
  by_cases hshort : (Word.at32 (table.drop position) 0).toNat ≤ headerSize
  · rw [if_pos hshort, if_pos hshort]
    rfl
  by_cases hover : table.length - position < (Word.at32 (table.drop position) 0).toNat
  · rw [if_neg hshort, if_neg hshort, if_pos hover, if_pos (by omega)]
    rfl
  rw [if_neg hshort, if_neg hshort, if_neg hover, if_neg (by omega),
    slice?_add (by omega) (by omega)]
  simp only [Option.bind_some, slice?_findIdx]
  cases Text.decode? _ with
  | none => rfl
  | some name =>
    have hflag : ((table.drop position).drop 16).head? =
        some (((table.drop position).drop 16).headD 0) := by
      rw [List.head?_drop, ← getElem?_header hthere (by decide),
        List.getElem?_take_of_lt (by decide)]
    simp only [at32?_header hthere (show 4 + 4 ≤ headerSize by decide),
      at32?_header hthere (show 8 + 4 ≤ headerSize by decide),
      at32?_header hthere (show 12 + 4 ≤ headerSize by decide),
      getElem?_header hthere (show 16 < headerSize by decide),
      getElem?_header hthere (show 17 < headerSize by decide), Option.bind_some, hflag]
    rfl

end Record

/-! ## The calls of a cursor -/

namespace Contents

/-- Each record takes more than a header, and at most one element is no record. -/
theorem length_recordsFrom_le : (recordsFrom position rest).length ≤
    rest.length / (Record.headerSize + 1) + 1 := by
  induction position, rest using recordsFrom.induct with
  | case1 position =>
    rw [recordsFrom, if_pos rfl]
    exact Nat.zero_le _
  | case2 position rest hne r hread ih =>
    rw [recordsFrom_ok hread, List.length_cons]
    have hlong := Record.length_of_read hread
    rw [List.length_drop] at ih
    simp only [Record.headerSize] at hlong ih ⊢
    omega
  | case3 position rest hne e hread =>
    rw [recordsFrom_error hne hread, List.length_singleton]
    exact Nat.le_add_left ..

end Contents

namespace Cursor

variable {c : Cursor}

/-- The cursor after a number of calls. -/
def after (c : Cursor) : Nat → Cursor
  | 0 => c
  | k + 1 => (c.after k).next.2

/-- What a call gives, where the first call has the number zero. -/
def item (c : Cursor) (k : Nat) : Option (Except Malformation Record) := (c.after k).next.1

/-- What is still to come. -/
def pending (c : Cursor) : List (Except Malformation Record) :=
  if c.isDone then [] else Contents.recordsFrom c.position c.rest

/-- **A call takes one element** from what is still to come, and leaves it as it is when
there is none. -/
theorem pending_next : c.next.1 = c.pending.head? ∧ c.next.2.pending = c.pending.tail := by
  rw [next, pending]
  by_cases hdone : c.isDone = true
  · simp [hdone, pending]
  by_cases hnil : c.rest = []
  · simp [hdone, hnil, pending, Contents.recordsFrom]
  rw [if_neg (by simp [hdone, hnil]), if_neg hdone]
  cases hread : Record.read c.position c.rest with
  | ok r =>
    rw [Contents.recordsFrom_ok hread]
    exact ⟨rfl, rfl⟩
  | error e =>
    rw [Contents.recordsFrom_error hnil hread]
    exact ⟨rfl, rfl⟩

theorem pending_after (k : Nat) : (c.after k).pending = c.pending.drop k := by
  induction k with
  | zero => rfl
  | succ k ih => rw [after, pending_next.2, ih, List.tail_drop]

/-- **The calls give the elements** that are to come, one by one, and nothing after them. -/
theorem item_eq (k : Nat) : c.item k = c.pending[k]? := by
  rw [item, pending_next.1, pending_after, List.head?_drop]

theorem item_start (k : Nat) : (start table).item k = (Contents.records table)[k]? :=
  item_eq k

/-- **No call gives an error** if the table is a sequence of records, and only then. -/
theorem no_error_iff_isTable :
    (∀ k e, (start table).item k ≠ some (.error e)) ↔ IsTable table := by
  rw [Contents.isTable_iff]
  constructor
  · intro h x hx
    obtain ⟨k, hk⟩ := List.mem_iff_getElem?.mp hx
    cases x with
    | ok r => exact ⟨r, rfl⟩
    | error e => exact absurd (item_start k ▸ hk) (h k e)
  · intro h k e he
    rw [item_start] at he
    obtain ⟨r, hr⟩ := h _ (List.mem_of_getElem? he)
    cases hr

/-- The cursor stands at a place of the table, and what is left begins there. -/
structure Stands (table : Bytes) (c : Cursor) : Prop where
  within : c.position ≤ table.length
  rest : c.rest = table.drop c.position

theorem Stands.next (h : c.Stands table) : c.next.2.Stands table := by
  rw [Cursor.next]
  split
  · exact h
  · split
    · rename_i r hread
      have hlength := (Record.length_of_read hread).2
      have hwithin := h.within
      rw [h.rest, List.length_drop] at hlength
      exact ⟨by show c.position + r.length.toNat ≤ table.length; omega,
        by rw [h.rest, List.drop_drop]⟩
    · exact ⟨h.within, h.rest⟩

theorem stands_after (k : Nat) : ((start table).after k).Stands table := by
  induction k with
  | zero => exact ⟨Nat.zero_le _, rfl⟩
  | succ k ih => exact ih.next

end Cursor

/-! ## The records that a table begins with -/

/-- A table begins with records, one after the other. -/
structure Begins (blocks : List Bytes) (table : Bytes) : Prop where
  records : ∀ b ∈ blocks, IsRecord b
  beginning : blocks.flatten <+: table

/-- A table is cut into records, one after the other. -/
structure Cut (blocks : List Bytes) (table : Bytes) : Prop where
  records : ∀ b ∈ blocks, IsRecord b
  joined : blocks.flatten = table

/-- The records that a table begins with, as far as they go. -/
structure Longest (blocks : List Bytes) (table : Bytes) : Prop extends Begins blocks table where
  longest : ∀ others, Begins others table → others <+: blocks

theorem Cut.begins (h : Cut blocks table) : Begins blocks table :=
  ⟨h.records, h.joined ▸ List.prefix_rfl⟩

theorem Begins.head {b : Bytes} (h : Begins (b :: blocks) table) : IsRecord b ∧ b <+: table := by
  refine ⟨h.records b List.mem_cons_self, List.IsPrefix.trans ?_ h.beginning⟩
  rw [List.flatten_cons]
  exact List.prefix_append ..

theorem begins_append_cons {b : Bytes} (hb : IsRecord b) :
    Begins (b :: blocks) (b ++ rest) ↔ Begins blocks rest := by
  constructor
  · intro h
    refine ⟨fun b' hb' => h.records b' (List.mem_cons_of_mem _ hb'), ?_⟩
    have := h.beginning
    rwa [List.flatten_cons, List.prefix_append_right_inj] at this
  · intro h
    refine ⟨List.forall_mem_cons.mpr ⟨hb, h.records⟩, ?_⟩
    rw [List.flatten_cons, List.prefix_append_right_inj]
    exact h.beginning

/-- **A record says where it ends**: what begins with two records begins with one of them. -/
theorem IsRecord.eq_of_isPrefix {b b' : Bytes} (hb : IsRecord b) (hb' : IsRecord b')
    (h : b <+: table) (h' : b' <+: table) : b = b' := by
  have hlong := hb.long
  have hlong' := hb'.long
  rw [Record.headerSize] at hlong hlong'
  obtain ⟨rest, rfl⟩ := h
  obtain ⟨rest', hrest'⟩ := h'
  have hfirst : Word.at32 (b ++ rest) 0 = Word.at32 b 0 := Word.at32_append (by omega)
  have hfirst' : Word.at32 (b' ++ rest') 0 = Word.at32 b' 0 := Word.at32_append (by omega)
  have hlength : b'.length = b.length := by
    rw [← hb.length, ← hb'.length, ← hfirst, ← hfirst', hrest']
  exact (List.append_inj hrest' hlength).1.symm

/-- What does not begin with a record begins with no records. -/
theorem longest_nil (h : ∀ b, IsRecord b → ¬b <+: rest) : Longest [] rest := by
  refine ⟨⟨by simp, List.nil_prefix⟩, ?_⟩
  intro others hothers
  cases others with
  | nil => exact List.prefix_rfl
  | cons b others => exact absurd hothers.head.2 (h b hothers.head.1)

/-- The records after the first are those of the rest. -/
theorem Longest.cons {b : Bytes} (hb : IsRecord b) (h : Longest blocks rest) :
    Longest (b :: blocks) (b ++ rest) := by
  refine ⟨(begins_append_cons hb).mpr h.toBegins, ?_⟩
  intro others hothers
  cases others with
  | nil => exact List.nil_prefix
  | cons b' others =>
    obtain ⟨hb', hprefix⟩ := hothers.head
    obtain rfl := hb'.eq_of_isPrefix hb hprefix (List.prefix_append ..)
    exact List.cons_prefix_cons.mpr ⟨rfl, h.longest others ((begins_append_cons hb).mp hothers)⟩

/-- **A table is cut into records in one way.** -/
theorem Cut.eq_of_longest (h : Cut others table) (hlongest : Longest blocks table) :
    others = blocks := by
  obtain ⟨later, rfl⟩ := hlongest.longest others h.begins
  cases later with
  | nil => rw [List.append_nil]
  | cons b later =>
    -- the whole table is used up, but a record takes some bytes
    have hlong := (hlongest.records b (by simp)).long
    have hlength := hlongest.beginning.length_le
    rw [List.flatten_append, h.joined, List.flatten_cons, List.length_append,
      List.length_append] at hlength
    omega

/-! ## What the cursor gives for them -/

/-- An entry says what the bytes of its record say, and where they begin. -/
structure Record.Describes (r : Record) (position : Nat) (bytes : Bytes) : Prop where
  position : r.position = position
  length : r.length.toNat = bytes.length
  offset : r.offset = Word.at32 bytes 4
  storedLength : r.storedLength = Word.at32 bytes 8
  fullLength : r.fullLength = Word.at32 bytes 12
  isCompressed : r.isCompressed = (bytes[16]? != some 0)
  kind : some r.kind = bytes[17]?.map .ofCode
  name : Text.encode r.name = (bytes.drop headerSize).takeWhile (· ≠ 0)

theorem Record.describes_of_read {r : Record} (h : read position rest = .ok r) :
    r.Describes position (rest.take r.length.toNat) := by
  obtain ⟨hlong, hle, name, hname, rfl⟩ := read_eq_ok.mp h
  rw [headerSize] at hlong
  have hlength : (describe position rest name).length = Word.at32 rest 0 := rfl
  rw [hlength]
  refine ⟨rfl, ?_, ?_, ?_, ?_, ?_, ?_, Text.encode_of_decode? hname⟩
  · rw [List.length_take_of_le hle, hlength]
  · exact (Word.at32_take (by omega)).symm
  · exact (Word.at32_take (by omega)).symm
  · exact (Word.at32_take (by omega)).symm
  · rw [List.getElem?_take_of_lt (by omega), ← List.head?_drop]
    rfl
  · have hkind : (describe position rest name).kind = .ofCode ((rest.drop 17).headD 0) := rfl
    rw [hkind, List.headD_eq_head?_getD, List.head?_drop, List.getElem?_take_of_lt (by omega),
      List.getElem?_eq_getElem (by omega)]
    rfl

/-- Entries describe the records of a table one after the other, each from where the one
before ends. -/
inductive Tiles : Nat → List Bytes → List Record → Prop
  | nil (position : Nat) : Tiles position [] []
  | cons {position : Nat} {b : Bytes} {r : Record} {blocks : List Bytes} {rs : List Record} :
    r.Describes position b → Tiles (position + b.length) blocks rs →
      Tiles position (b :: blocks) (r :: rs)

/-- What comes after the records that a table begins with. -/
inductive Ending (blocks : List Bytes) (table : Bytes) : List (Except Malformation Record) → Prop
  | complete : blocks.flatten = table → Ending blocks table []
  | broken (e : Malformation) : blocks.flatten ≠ table → Ending blocks table [.error e]

theorem Ending.cons {b : Bytes} {ending : List (Except Malformation Record)}
    (h : Ending blocks rest ending) : Ending (b :: blocks) (b ++ rest) ending := by
  cases h with
  | complete h => exact .complete (by rw [List.flatten_cons, h])
  | broken e h => exact .broken e (by rwa [List.flatten_cons, ne_eq, List.append_cancel_left_eq])

/-- **The entries of the longest sequence of records** that a table begins with are read, and
then an error if that is not all. -/
theorem Contents.exists_longest (position : Nat) (table : Bytes) : ∃ blocks rs ending,
    Longest blocks table ∧ Tiles position blocks rs ∧ Ending blocks table ending ∧
      recordsFrom position table = rs.map .ok ++ ending := by
  induction position, table using recordsFrom.induct with
  | case1 position =>
    refine ⟨[], [], [], longest_nil ?_, .nil _, .complete rfl, by rw [recordsFrom, if_pos rfl]; rfl⟩
    intro b hb hprefix
    have := hb.long
    rw [List.prefix_nil.mp hprefix] at this
    simp at this
  | case2 position table hne r hread ih =>
    obtain ⟨blocks, rs, ending, hlongest, htiles, hending, hrecords⟩ := ih
    have hdescribes := Record.describes_of_read hread
    have hfirst := hlongest.cons (Record.isRecord_of_read hread)
    have hlast := hending.cons (b := table.take r.length.toNat)
    rw [List.take_append_drop] at hfirst hlast
    refine ⟨table.take r.length.toNat :: blocks, r :: rs, ending, hfirst, ?_, hlast, ?_⟩
    · exact .cons hdescribes (hdescribes.length ▸ htiles)
    · rw [recordsFrom_ok hread, hrecords]
      rfl
  | case3 position table hne e hread =>
    refine ⟨[], [], [.error e], longest_nil ?_, .nil _, .broken e (Ne.symm hne),
      recordsFrom_error hne hread⟩
    rintro b hb ⟨rest, rfl⟩
    obtain ⟨r, hr, -⟩ := Record.read_append hb position rest
    rw [hread] at hr
    cases hr

/-! ### Single elements -/

section Elements

variable {rs : List Record} {ending : List (Except Malformation Record)} {k : Nat}

theorem Tiles.position_first {r : Record} (h : Tiles position blocks rs) (hr : rs[0]? = some r) :
    r.position = position := by
  cases h with
  | nil => cases hr
  | cons hdescribes hrest =>
    cases hr
    exact hdescribes.position

/-- An entry begins where the one before ends. -/
theorem Tiles.position_next {r later : Record} (h : Tiles position blocks rs)
    (hr : rs[k]? = some r) (hlater : rs[k + 1]? = some later) :
    later.position = r.position + r.length.toNat := by
  induction h generalizing k with
  | nil => cases hr
  | cons hdescribes hrest ih =>
    cases k with
    | zero =>
      cases hr
      rw [hdescribes.position, hdescribes.length]
      exact hrest.position_first hlater
    | succ k => exact ih hr hlater

/-- An element is an entry, or the error after all of them. -/
theorem Ending.getElem? {x : Except Malformation Record} (h : Ending blocks table ending)
    (hx : (rs.map .ok ++ ending)[k]? = some x) :
    (∃ r, x = .ok r ∧ rs[k]? = some r) ∨
      ∃ e, x = .error e ∧ ending = [.error e] ∧ rs.length = k := by
  by_cases hk : k < rs.length
  · rw [List.getElem?_append_left (by simpa using hk), List.getElem?_map,
      Option.map_eq_some_iff] at hx
    obtain ⟨r, hr, rfl⟩ := hx
    exact .inl ⟨r, rfl, hr⟩
  · rw [List.getElem?_append_right (by simpa using hk), List.length_map] at hx
    cases h with
    | complete => cases hx
    | broken e =>
      have hk' : k - rs.length = 0 := by
        have := (List.getElem?_eq_some_iff.mp hx).1
        simpa using this
      rw [hk'] at hx
      cases hx
      exact .inr ⟨e, rfl, rfl, by omega⟩

end Elements

/-! ### All of it -/

/-- A table that is cut into records is a sequence of them. -/
theorem isTable_iff_cut : IsTable table ↔ ∃ blocks, Cut blocks table := by
  constructor
  · intro h
    induction h with
    | nil => exact ⟨[], by simp, rfl⟩
    | @append b rest hb hrest ih =>
      obtain ⟨blocks, hblocks⟩ := ih
      exact ⟨b :: blocks, List.forall_mem_cons.mpr ⟨hb, hblocks.records⟩,
        by rw [List.flatten_cons, hblocks.joined]⟩
  · rintro ⟨blocks, hrecords, rfl⟩
    induction blocks with
    | nil => exact .nil
    | cons b blocks ih =>
      rw [List.flatten_cons]
      exact .append (hrecords b List.mem_cons_self)
        (ih fun b' hb' => hrecords b' (List.mem_cons_of_mem _ hb'))

namespace Cursor

/-- What the calls of a cursor give, from the start of a table on. -/
structure Parses (table : Bytes) : Prop where
  /-- They come to an end: a record takes more than a header. -/
  stops : ∀ k, table.length / (Record.headerSize + 1) + 1 ≤ k → (start table).item k = none
  /-- Where nothing is left, nothing comes later. -/
  fused : ∀ k later, k ≤ later → (start table).item k = none → (start table).item later = none
  /-- Nothing comes after an error. -/
  errorLast : ∀ k later e, k < later → (start table).item k = some (.error e) →
    (start table).item later = none
  /-- The cursor stays in the table, and no access from there is out of bounds. -/
  within : ∀ k, ((start table).after k).position ≤ table.length ∧
    Record.readAt? table ((start table).after k).position =
      some ((Record.read ((start table).after k).position ((start table).after k).rest).map
        fun r => (r, ((start table).after k).position + r.length.toNat))
  first : ∀ r, (start table).item 0 = some (.ok r) → r.position = 0
  long : ∀ k r, (start table).item k = some (.ok r) → Record.headerSize < r.length.toNat
  follows : ∀ k r later, (start table).item k = some (.ok r) →
    (start table).item (k + 1) = some (.ok later) →
      later.position = r.position + r.length.toNat
  /-- There is no error if the table is cut into records, and only then. -/
  sound : (∀ k e, (start table).item k ≠ some (.error e)) ↔ ∃ blocks, Cut blocks table
  /-- The table is cut into records in one way, and these are what the entries describe. -/
  entries : ∀ blocks, Cut blocks table → (∀ others, Cut others table → others = blocks) ∧
    ∃ rs, Tiles 0 blocks rs ∧ ∀ k, (start table).item k = rs[k]?.map .ok
  /-- The entries before an error describe as many records as the table begins with. -/
  beforeError : ∀ n e, (start table).item n = some (.error e) →
    ∃ blocks rs, Longest blocks table ∧ Tiles 0 blocks rs ∧ rs.length = n ∧
      ∀ k < n, (start table).item k = rs[k]?.map .ok

/-- **The cursor reads the grammar of tables**, of every sequence of bytes: within its bounds,
to an end, and as far as there are records. -/
theorem parses (table : Bytes) : Parses table := by
  obtain ⟨blocks, rs, ending, hlongest, htiles, hending, hrecords⟩ :=
    Contents.exists_longest 0 table
  have hitem (k : Nat) : (start table).item k = (rs.map .ok ++ ending)[k]? := by
    rw [item_start, Contents.records, hrecords]
  have hok {k : Nat} {r : Record} (h : (start table).item k = some (.ok r)) :
      rs[k]? = some r := by
    rw [hitem] at h
    obtain ⟨r', heq, hr⟩ | ⟨e, heq, -, -⟩ := hending.getElem? h <;> cases heq
    exact hr
  have herror {k : Nat} {e : Malformation} (h : (start table).item k = some (.error e)) :
      ending = [.error e] ∧ rs.length = k := by
    rw [hitem] at h
    obtain ⟨r, heq, -⟩ | ⟨e', heq, hrest⟩ := hending.getElem? h <;> cases heq
    exact hrest
  constructor
  case stops =>
    intro k hk
    rw [item_start, List.getElem?_eq_none_iff]
    exact Nat.le_trans Contents.length_recordsFrom_le hk
  case fused =>
    intro k later hle hk
    rw [item_start, List.getElem?_eq_none_iff] at hk ⊢
    exact Nat.le_trans hk hle
  case errorLast =>
    intro k later e hlt hk
    obtain ⟨rfl, rfl⟩ := herror hk
    rw [hitem, List.getElem?_eq_none_iff, List.length_append, List.length_map]
    exact hlt
  case within =>
    intro k
    have hstands : ((start table).after k).Stands table := stands_after k
    refine ⟨hstands.within, ?_⟩
    rw [Record.readAt?_eq hstands.within, hstands.rest]
  case first =>
    intro r hr
    exact htiles.position_first (hok hr)
  case long =>
    intro k r hr
    rw [item_start] at hr
    obtain ⟨position, rest, -, hread⟩ := Contents.exists_read_of_mem (List.mem_of_getElem? hr)
    exact (Record.length_of_read hread).1
  case follows =>
    intro k r later hr hlater
    exact htiles.position_next (hok hr) (hok hlater)
  case sound =>
    rw [no_error_iff_isTable, isTable_iff_cut]
  case entries =>
    intro blocks' hcut
    obtain rfl := hcut.eq_of_longest hlongest
    refine ⟨fun others hothers => hothers.eq_of_longest hlongest, rs, htiles, ?_⟩
    intro k
    cases hending with
    | complete => rw [hitem, List.append_nil, List.getElem?_map]
    | broken e hne => exact absurd hcut.joined hne
  case beforeError =>
    intro n e hn
    obtain ⟨-, rfl⟩ := herror hn
    refine ⟨blocks, rs, hlongest, htiles, rfl, ?_⟩
    intro k hk
    rw [hitem, List.getElem?_append_left (by simpa using hk), List.getElem?_map]

end Cursor

end Stowage
