import Stowage.Proofs.Container.Reading

/-!
# Opening with words of 64 bits

Positions in a file are words of 64 bits, and the numbers of a cookie are whatever a file
says.  This module follows the opening of a container with sums and differences that have
no result when they wrap (`Word.add?`, `Word.sub?`), and shows that each of them has one:
on a content that a file can have, the computation with words is the computation with
numbers (`planWords_eq`).
-/

namespace Stowage

variable {content pattern : Bytes} {path : Path}

namespace Word

/-- The length of a file is less than this, which is 2^63. -/
def fileBound : Nat := UInt64.size / 2

/-- The sum of two words, if it is a word. -/
def add? (a b : UInt64) : Option UInt64 :=
  if a.toNat + b.toNat < UInt64.size then some (a + b) else none

/-- The difference of two words, if it is a word. -/
def sub? (a b : UInt64) : Option UInt64 :=
  if b ≤ a then some (a - b) else none

theorem toNat_toUInt64 {n : Nat} (h : n < UInt64.size) : n.toUInt64.toNat = n :=
  UInt64.toNat_ofNat_of_lt' h

theorem add?_toUInt64 {a b : Nat} (h : a + b < UInt64.size) :
    add? a.toUInt64 b.toUInt64 = some (a + b).toUInt64 := by
  rw [add?, toNat_toUInt64 (by omega), toNat_toUInt64 (by omega), if_pos h]
  refine congrArg some (UInt64.toNat_inj.mp ?_)
  rw [UInt64.toNat_add, toNat_toUInt64 (by omega), toNat_toUInt64 (by omega), toNat_toUInt64 h]
  exact Nat.mod_eq_of_lt h

theorem toNat_of_add? {a b c : UInt64} (h : add? a b = some c) :
    c.toNat = a.toNat + b.toNat := by
  rw [add?] at h
  split at h
  · rename_i hlt
    cases h
    rw [UInt64.toNat_add]
    exact Nat.mod_eq_of_lt hlt
  · cases h

theorem toUInt64_eq (n : UInt32) : n.toUInt64 = n.toNat.toUInt64 := by
  have := n.toNat_lt
  rw [← UInt64.toNat_inj, toNat_toUInt64 (by rw [UInt64.size]; omega), UInt32.toNat_toUInt64]

theorem toUInt64_le {a b : Nat} (ha : a < UInt64.size) (hb : b < UInt64.size) :
    a.toUInt64 ≤ b.toUInt64 ↔ a ≤ b := by
  rw [UInt64.le_iff_toNat_le, toNat_toUInt64 ha, toNat_toUInt64 hb]

theorem toUInt64_lt {a b : Nat} (ha : a < UInt64.size) (hb : b < UInt64.size) :
    a.toUInt64 < b.toUInt64 ↔ a < b := by
  rw [UInt64.lt_iff_toNat_lt, toNat_toUInt64 ha, toNat_toUInt64 hb]

theorem sub?_toUInt64 {a b : Nat} (ha : a < UInt64.size) (h : b ≤ a) :
    sub? a.toUInt64 b.toUInt64 = some (a - b).toUInt64 := by
  have hb : b < UInt64.size := Nat.lt_of_le_of_lt h ha
  rw [sub?, if_pos ((toUInt64_le hb ha).mpr h)]
  refine congrArg some (UInt64.toNat_inj.mp ?_)
  rw [UInt64.toNat_sub_of_le _ _ ((toUInt64_le hb ha).mpr h), toNat_toUInt64 ha,
    toNat_toUInt64 hb, toNat_toUInt64 (by omega)]

end Word

/-! ## Searching from the end -/

namespace Scan

/-- Where the window before a position starts. -/
def windowStart (stop : UInt64) : UInt64 :=
  if stop < windowSize.toUInt64 then 0 else stop - windowSize.toUInt64

theorem windowStart_toNat (stop : UInt64) :
    (windowStart stop).toNat = stop.toNat - windowSize := by
  have hsize : windowSize.toUInt64.toNat = windowSize := rfl
  rw [windowStart]
  split
  · rename_i h
    rw [UInt64.lt_iff_toNat_lt, hsize] at h
    rw [Nat.sub_eq_zero_of_le (Nat.le_of_lt h)]
    rfl
  · rename_i h
    rw [UInt64.not_lt] at h
    rw [UInt64.toNat_sub_of_le _ _ h, hsize]

/-- Searches the windows that end at `stop` and before, with words for positions. -/
def lastBeforeWords (content pattern : Bytes) (fits : pattern.length ≤ windowSize)
    (stop : UInt64) : Option (Except FileError (Option UInt64)) :=
  let start := windowStart stop
  match Word.sub? stop start with
  | none => none
  | some length =>
    let window := (content.drop start.toNat).take length.toNat
    if window.length < length.toNat then some (.error .shortRead)
    else match lastIn pattern window with
      | some i => (Word.add? start i.toUInt64).map fun position => .ok (some position)
      | none =>
        if start = 0 then some (.ok none)
        else match _h : Word.add? start (pattern.length - 1).toUInt64 with
          | none => none
          | some next => lastBeforeWords content pattern fits next
  termination_by stop.toNat
  decreasing_by
    have hnext := Word.toNat_of_add? _h
    have hstart : (windowStart stop).toNat ≠ 0 := fun h => ‹¬start = 0› (UInt64.toNat_inj.mp h)
    rw [windowStart_toNat] at hnext hstart
    rw [Word.toNat_toUInt64 (Nat.lt_of_le_of_lt (Nat.le_trans (Nat.sub_le ..) fits) (by decide))]
      at hnext
    have : 0 < windowSize := by decide
    omega

/-- The numbers as words, in what a search gives. -/
def inWords (result : Except FileError (Option Nat)) : Except FileError (Option UInt64) :=
  result.map (Option.map Nat.toUInt64)

theorem lastBeforeWords_eq (fits : pattern.length ≤ windowSize) (hp : pattern ≠ [])
    (hcontent : content.length < UInt64.size) {stop : Nat} (hstop : stop ≤ content.length) :
    lastBeforeWords content pattern fits stop.toUInt64 =
      some (inWords (lastBefore windowSize content pattern (by decide) fits stop)) := by
  induction stop using Nat.strongRecOn with
  | ind stop ih =>
    have hpos : 0 < pattern.length := List.length_pos_iff.mpr hp
    have hwide : windowSize < UInt64.size := by decide
    have hstart : windowStart stop.toUInt64 = (stop - windowSize).toUInt64 := by
      refine UInt64.toNat_inj.mp ?_
      rw [windowStart_toNat, Word.toNat_toUInt64 (by omega), Word.toNat_toUInt64 (by omega)]
    have hlength : Word.sub? stop.toUInt64 (stop - windowSize).toUInt64 =
        some (stop - (stop - windowSize)).toUInt64 :=
      Word.sub?_toUInt64 (by omega) (Nat.sub_le ..)
    rw [lastBeforeWords, lastBefore]
    simp only [hstart, hlength, Word.toNat_toUInt64 (show stop - windowSize < _ by omega),
      Word.toNat_toUInt64 (show stop - (stop - windowSize) < _ by omega)]
    split
    · rfl
    cases hlast : lastIn pattern ((content.drop (stop - windowSize)).take
        (stop - (stop - windowSize))) with
    | some i =>
      have hi := ((lastIn_eq_some_iff hp).mp hlast).occurs.length_le hp
      rw [List.length_take, List.length_drop] at hi
      simp only [Word.add?_toUInt64 (show stop - windowSize + i < _ by omega)]
      rfl
    | none =>
      have hzero : (stop - windowSize).toUInt64 = 0 ↔ stop - windowSize = 0 := by
        rw [← UInt64.toNat_inj, Word.toNat_toUInt64 (by omega)]
        exact Iff.rfl
      by_cases hdone : stop - windowSize = 0
      · simp only [hdone, dif_pos]
        rfl
      · have hnext := Word.add?_toUInt64
          (show stop - windowSize + (pattern.length - 1) < UInt64.size by omega)
        simp only [hzero, hdone, if_false, dif_neg, not_false_eq_true]
        split
        · rename_i h
          rw [hstart, hnext] at h
          cases h
        · rename_i next h
          rw [hstart, hnext] at h
          cases h
          exact ih (stop - windowSize + (pattern.length - 1)) (by omega) (by omega)

end Scan

/-! ## Opening -/

namespace Archive

/-- Where a container and its table start, with words for positions. -/
def layOutWords (position : UInt64) (cookie : Cookie) :
    Option (Except ArchiveFault (UInt64 × UInt64)) := do
  let cookieEnd ← Word.add? position Cookie.size.toUInt64
  let length := cookie.containerLength.toUInt64
  if cookieEnd < length then
    return .error (.malformed (.containerTooLong length.toNat cookieEnd.toNat))
  let base ← Word.sub? cookieEnd length
  let start ← Word.add? base cookie.contentsOffset.toUInt64
  let stop ← Word.add? start cookie.contentsLength.toUInt64
  if position < stop then
    return .error (.truncated (.contentsOverlapCookie start.toNat stop.toNat position.toNat))
  return .ok (base, start)

/-- What is known before the table is read, with words for positions. -/
def planWords (path : Path) (content : Bytes) :
    Option (Except ArchiveFault (Cookie × UInt64 × UInt64)) := do
  let fileLength := content.length.toUInt64
  if fileLength < Cookie.size.toUInt64 then return .error (.noCookie path)
  match ← Scan.lastBeforeWords content Cookie.magic (by decide) fileLength with
  | .error e => return .error (.io e)
  | .ok none => return .error (.noCookie path)
  | .ok (some position) =>
    let cookieEnd ← Word.add? position Cookie.size.toUInt64
    if fileLength < cookieEnd then
      return .error (.truncated (.cookieBeyondFile position.toNat fileLength.toNat))
    match Cookie.parse ((content.drop position.toNat).take Cookie.size) with
    | .error fault => return .error fault
    | .ok cookie =>
      return (← layOutWords position cookie).map fun places => (cookie, places.1, places.2)

theorem layOutWords_eq (cookie : Cookie) {position : Nat} (h : position < Word.fileBound) :
    layOutWords position.toUInt64 cookie = some ((layOut position cookie).map fun places =>
      (places.1.toUInt64, places.2.toUInt64)) := by
  have hsize : UInt64.size = 2 ^ 64 := rfl
  have hbound : Word.fileBound = 2 ^ 63 := rfl
  have hcookie : Cookie.size = 88 := rfl
  have hlength := cookie.containerLength.toNat_lt
  have hoffset := cookie.contentsOffset.toNat_lt
  have hcontents := cookie.contentsLength.toNat_lt
  have hend := Word.add?_toUInt64 (show position + Cookie.size < UInt64.size by omega)
  rw [layOutWords, layOut, hend]
  simp only [Word.toUInt64_eq, Option.bind_eq_bind, Option.bind_some,
    Word.toUInt64_lt (show position + Cookie.size < UInt64.size by omega)
      (show cookie.containerLength.toNat < UInt64.size by omega)]
  by_cases hlong : position + Cookie.size < cookie.containerLength.toNat
  · simp only [hlong, if_true, Word.toNat_toUInt64 (show cookie.containerLength.toNat < _ by omega),
      Word.toNat_toUInt64 (show position + Cookie.size < _ by omega)]
    rfl
  simp only [hlong, if_false, Option.bind_some, Word.sub?_toUInt64
    (show position + Cookie.size < UInt64.size by omega) (Nat.le_of_not_lt hlong)]
  have hbase : position + Cookie.size - cookie.containerLength.toNat ≤ position + Cookie.size :=
    Nat.sub_le ..
  generalize position + Cookie.size - cookie.containerLength.toNat = base at hbase ⊢
  simp only [Word.add?_toUInt64 (show base + cookie.contentsOffset.toNat < UInt64.size by omega),
    Option.bind_some]
  have hstart : base + cookie.contentsOffset.toNat < position + Cookie.size + 2 ^ 32 := by omega
  generalize base + cookie.contentsOffset.toNat = start at hstart ⊢
  simp only [Word.add?_toUInt64 (show start + cookie.contentsLength.toNat < UInt64.size by omega),
    Option.bind_some, Word.toUInt64_lt (show position < _ by omega)
      (show start + cookie.contentsLength.toNat < UInt64.size by omega)]
  by_cases hover : position < start + cookie.contentsLength.toNat
  · simp only [hover, if_true, Word.toNat_toUInt64 (show start < _ by omega),
      Word.toNat_toUInt64 (show position < _ by omega),
      Word.toNat_toUInt64 (show start + cookie.contentsLength.toNat < _ by omega)]
    rfl
  · simp only [hover, if_false]
    rfl

/-- The search for the cookie, with words for positions. -/
theorem lastBeforeWords_magic (h : content.length < Word.fileBound) :
    Scan.lastBeforeWords content Cookie.magic (by decide) content.length.toUInt64 =
      some (.ok ((Scan.lastIn Cookie.magic content).map Nat.toUInt64)) := by
  have hsize : UInt64.size = 2 ^ 64 := rfl
  have hbound : Word.fileBound = 2 ^ 63 := rfl
  rw [Scan.lastBeforeWords_eq (by decide) (by decide) (by omega) (Nat.le_refl _),
    Scan.lastBefore_eq _ _ (by decide) (Nat.le_refl _), List.take_length]
  rfl

/-- **Opening with words is opening with numbers**: on a content that a file can have, no
sum and no difference wraps. -/
theorem planWords_eq (path : Path) (h : content.length < Word.fileBound) :
    planWords path content = some ((plan path content).map fun places =>
      (places.1, places.2.1.toUInt64, places.2.2.toUInt64)) := by
  have hsize : UInt64.size = 2 ^ 64 := rfl
  have hbound : Word.fileBound = 2 ^ 63 := rfl
  have hcookie : Cookie.size = 88 := rfl
  rw [planWords, plan]
  simp only [lastBeforeWords_magic h, Option.bind_eq_bind, Option.bind_some,
    Word.toUInt64_lt (show content.length < UInt64.size by omega)
      (show Cookie.size < UInt64.size by omega)]
  by_cases hshort : content.length < Cookie.size
  · simp only [hshort, if_true]
    rfl
  simp only [hshort, if_false]
  cases hlast : Scan.lastIn Cookie.magic content with
  | none => rfl
  | some position =>
    have hposition := ((Scan.lastIn_eq_some_iff (by decide)).mp hlast).occurs.length_le (by decide)
    simp only [Option.map_some]
    rw [Word.add?_toUInt64 (show position + Cookie.size < UInt64.size by omega)]
    simp only [Option.bind_some, Word.toUInt64_lt (show content.length < UInt64.size by omega)
      (show position + Cookie.size < UInt64.size by omega)]
    by_cases hbeyond : content.length < position + Cookie.size
    · simp only [hbeyond, if_true, Word.toNat_toUInt64 (show position < UInt64.size by omega),
        Word.toNat_toUInt64 (show content.length < UInt64.size by omega)]
      rfl
    simp only [hbeyond, if_false, Word.toNat_toUInt64 (show position < UInt64.size by omega)]
    cases Cookie.parse ((content.drop position).take Cookie.size) with
    | error fault => rfl
    | ok cookie =>
      simp only [layOutWords_eq cookie (show position < Word.fileBound by omega), Option.bind_some]
      simp only [Result.ok_bind]
      cases layOut position cookie <;> rfl

end Archive
end Stowage
