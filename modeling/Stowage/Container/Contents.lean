import Stowage.Bytes.Word
import Stowage.Container.Error
import Stowage.Container.Kind
/-!
# Tables of contents

The table of contents of a container is a sequence of records. A record starts with its own length,
three more numbers, a flag and a kind; the name follows, ends at its first zero and is padded to
the end of the record.

`Cursor.next` reads record after record. The first one that breaks the format is reported once, and
nothing comes after it.
-/

namespace Stowage

/-- An entry of a container, as its record describes it. -/
structure Record where
  /-- Where the record starts in the table of contents. -/
  position : Nat
  /-- The length of the record itself. -/
  length : UInt32
  /-- Where the payload starts, counted from the start of the container. -/
  offset : UInt32
  /-- The length of the payload as it is stored. -/
  storedLength : UInt32
  /-- The length of the payload when it is decoded. -/
  fullLength : UInt32
  isCompressed : Bool
  kind : EntryKind
  name : String
  deriving DecidableEq, Repr

namespace Record

/-- The length of a record without its name. -/
def headerSize : Nat := 18

/-- The record at the start of what is left of a table. -/
def read (position : Nat) (rest : Bytes) : Except Malformation Record :=
  let length := Word.at32 rest 0
  if rest.length < headerSize then .error (.recordCut position rest.length)
  else if length.toNat ≤ headerSize then .error (.recordTooShort position length.toNat)
  else if rest.length < length.toNat then .error (.recordOverrun position length.toNat)
  else
    match Text.decode? (((rest.take length.toNat).drop headerSize).takeWhile (· ≠ 0)) with
    | none => .error (.recordNameNotText position)
    | some name => .ok {
        position, length
        offset := Word.at32 rest 4
        storedLength := Word.at32 rest 8
        fullLength := Word.at32 rest 12
        isCompressed := (rest.drop 16).head? != some 0
        kind := .ofCode ((rest.drop 17).headD 0)
        name }

theorem length_of_read {position : Nat} {rest : Bytes} {r : Record}
    (h : read position rest = .ok r) :
    headerSize < r.length.toNat ∧ r.length.toNat ≤ rest.length := by
  simp only [read] at h
  repeat' split at h
  all_goals first
    | contradiction
    | cases h
      simp only
      omega

/-- The number of bytes that a name takes: with a zero at its end, up to a multiple of sixteen. -/
def paddedLength (name : Bytes) : Nat :=
  (name.length + 1 + 15) / 16 * 16

/-- The bytes of a record, but for its position. The name is written in full and padded. -/
def encode (r : Record) : Bytes :=
  let name := Text.encode r.name
  Word.encode (headerSize + paddedLength name) ++ Word.encode r.offset.toNat ++
    Word.encode r.storedLength.toNat ++ Word.encode r.fullLength.toNat ++
    [if r.isCompressed then 1 else 0, r.kind.code] ++ name ++
    List.replicate (paddedLength name - name.length) 0

end Record

/-- A place in a table of contents. -/
structure Cursor where
  rest : Bytes
  position : Nat
  isDone : Bool
  deriving DecidableEq, Repr

namespace Cursor

/-- The place before the first record. -/
def start (table : Bytes) : Cursor := ⟨table, 0, false⟩

/-- The next record or what is wrong with it, and the place after it. -/
def next (c : Cursor) : Option (Except Malformation Record) × Cursor :=
  if c.isDone || c.rest = [] then (none, c)
  else match Record.read c.position c.rest with
    | .ok r => (some (.ok r),
        ⟨c.rest.drop r.length.toNat, c.position + r.length.toNat, false⟩)
    | .error e => (some (.error e), { c with isDone := true })

end Cursor

namespace Contents

/-- The records from a position on, up to the first that breaks the format. -/
def recordsFrom (position : Nat) (rest : Bytes) : List (Except Malformation Record) :=
  if rest = [] then []
  else match _h : Record.read position rest with
    | .ok r => .ok r :: recordsFrom (position + r.length.toNat) (rest.drop r.length.toNat)
    | .error e => [.error e]
  termination_by rest.length
  decreasing_by
    have hr := Record.length_of_read _h
    simp only [List.length_drop]
    omega

/-- The records of a table of contents, up to the first that breaks the format. -/
def records (table : Bytes) : List (Except Malformation Record) :=
  recordsFrom 0 table

/-- The leading elements of a list that are no errors. -/
def sound {ε α : Type} : List (Except ε α) → List α
  | .ok a :: rest => a :: sound rest
  | _ => []

/-- All records, or what is wrong with the first that breaks the format. -/
def checked (table : Bytes) : Except Malformation (List Record) :=
  (records table).mapM id

end Contents

end Stowage
