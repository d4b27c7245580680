import Stowage.Container.Scan

/-!
# The window scan finds the last occurrence

`Scan.lastBefore` looks at one window after the other, from the end to the start.  The
windows overlap by one byte less than the pattern, so no occurrence is missed, and an
occurrence that ends in a later window has been found before.  The scan therefore gives
what a search of the whole content gives (`lastOccurrence_eq`), and that is the greatest
position at which the pattern occurs (`lastIn_eq_some_iff`).
-/

namespace Stowage.Scan

variable {pattern content : Bytes} {i : Nat}

/-- The pattern stands at a position of the content. -/
def Occurs (pattern content : Bytes) (i : Nat) : Prop := pattern <+: content.drop i

/-- The greatest position at which the pattern stands. -/
structure IsLast (pattern content : Bytes) (i : Nat) : Prop where
  occurs : Occurs pattern content i
  greatest : ∀ j, Occurs pattern content j → j ≤ i

theorem IsLast.unique {j : Nat} (h : IsLast pattern content i) (h' : IsLast pattern content j) :
    i = j :=
  Nat.le_antisymm (h'.greatest i h.occurs) (h.greatest j h'.occurs)

theorem Occurs.length_le (h : Occurs pattern content i) (hp : pattern ≠ []) :
    i + pattern.length ≤ content.length := by
  have := List.IsPrefix.length_le h
  have hpos : 0 < pattern.length := List.length_pos_iff.mpr hp
  rw [List.length_drop] at this
  omega

@[simp] theorem occurs_cons_succ {b : UInt8} :
    Occurs pattern (b :: content) (i + 1) ↔ Occurs pattern content i := Iff.rfl

theorem occurs_take {stop : Nat} (hp : pattern ≠ []) :
    Occurs pattern (content.take stop) i ↔
      Occurs pattern content i ∧ i + pattern.length ≤ stop := by
  have hpos : 0 < pattern.length := List.length_pos_iff.mpr hp
  rw [Occurs, Occurs, List.drop_take, List.prefix_take_iff]
  constructor
  · rintro ⟨h, hle⟩; exact ⟨h, by omega⟩
  · rintro ⟨h, hle⟩; exact ⟨h, by omega⟩

theorem occurs_drop {start : Nat} :
    Occurs pattern (content.drop start) i ↔ Occurs pattern content (start + i) := by
  rw [Occurs, Occurs, List.drop_drop]

/-! ## Searching the whole content -/

theorem lastIn_eq_none_iff (hp : pattern ≠ []) :
    lastIn pattern content = none ↔ ∀ i, ¬Occurs pattern content i := by
  induction content with
  | nil =>
    rw [lastIn, if_neg hp]
    refine ⟨fun _ i h => ?_, fun _ => rfl⟩
    rw [Occurs, List.drop_nil, List.prefix_nil] at h
    exact hp h
  | cons b rest ih =>
    rw [lastIn]
    cases hrest : lastIn pattern rest with
    | some i =>
      refine ⟨fun h => (by cases h), fun h => ?_⟩
      have := ih.mpr fun j hj => h (j + 1) hj
      rw [hrest] at this
      cases this
    | none =>
      have hno := ih.mp hrest
      by_cases hpre : pattern.isPrefixOf (b :: rest) = true
      · simp only [hpre, if_true]
        refine ⟨fun h => (by cases h), fun h => ?_⟩
        exact absurd (List.isPrefixOf_iff_prefix.mp hpre) (h 0)
      · simp only [hpre]
        refine ⟨fun _ i h => ?_, fun _ => rfl⟩
        cases i with
        | zero => exact hpre (List.isPrefixOf_iff_prefix.mpr h)
        | succ i => exact hno i h

/-- **Searching the whole content** gives the last occurrence. -/
theorem lastIn_eq_some_iff (hp : pattern ≠ []) :
    lastIn pattern content = some i ↔ IsLast pattern content i := by
  induction content generalizing i with
  | nil =>
    rw [lastIn, if_neg hp]
    refine ⟨fun h => (by cases h), fun h => ?_⟩
    have := h.occurs
    rw [Occurs, List.drop_nil, List.prefix_nil] at this
    exact absurd this hp
  | cons b rest ih =>
    rw [lastIn]
    cases hrest : lastIn pattern rest with
    | some j =>
      have hj := ih.mp hrest
      have hlast : IsLast pattern (b :: rest) (j + 1) := by
        refine ⟨hj.occurs, fun k hk => ?_⟩
        cases k with
        | zero => exact Nat.zero_le _
        | succ k => exact Nat.succ_le_succ (hj.greatest k hk)
      constructor
      · intro h
        cases h
        exact hlast
      · intro h
        rw [h.unique hlast]
    | none =>
      have hno := (lastIn_eq_none_iff hp).mp hrest
      have honly {k : Nat} (hk : Occurs pattern (b :: rest) k) : k = 0 := by
        cases k with
        | zero => rfl
        | succ k => exact absurd hk (hno k)
      by_cases hpre : pattern.isPrefixOf (b :: rest) = true
      · simp only [hpre, if_true, Option.some.injEq]
        constructor
        · rintro rfl
          exact ⟨List.isPrefixOf_iff_prefix.mp hpre, fun k hk => Nat.le_of_eq (honly hk)⟩
        · intro h
          exact (honly h.occurs).symm
      · simp only [hpre]
        refine ⟨fun h => (by cases h), fun h => ?_⟩
        have hzero := honly h.occurs
        subst hzero
        exact absurd (List.isPrefixOf_iff_prefix.mpr h.occurs) hpre

/-- What a search of the content comes to: the last occurrence, and nothing only if there is
none. -/
structure Finds (pattern content : Bytes) (found : Option Nat) : Prop where
  position : ∀ i, found = some i ↔ IsLast pattern content i
  absence : found = none ↔ ∀ i, ¬Occurs pattern content i

theorem finds_lastIn (hp : pattern ≠ []) : Finds pattern content (lastIn pattern content) :=
  ⟨fun _ => lastIn_eq_some_iff hp, lastIn_eq_none_iff hp⟩

/-- What is found depends on where the pattern stands and on nothing else. -/
theorem lastIn_congr {other : Bytes} (hp : pattern ≠ [])
    (h : ∀ j, Occurs pattern content j ↔ Occurs pattern other j) :
    lastIn pattern content = lastIn pattern other := by
  cases hother : lastIn pattern other with
  | none =>
    rw [lastIn_eq_none_iff hp] at hother ⊢
    exact fun j hj => hother j ((h j).mp hj)
  | some i =>
    rw [lastIn_eq_some_iff hp] at hother ⊢
    exact ⟨(h i).mpr hother.occurs, fun j hj => hother.greatest j ((h j).mp hj)⟩

/-! ## Searching window by window -/

/-- The last occurrence in a window at the end of the content is the last of all. -/
theorem IsLast.of_drop {start : Nat} (h : IsLast pattern (content.drop start) i) :
    IsLast pattern content (start + i) := by
  refine ⟨occurs_drop.mp h.occurs, ?_⟩
  intro j hj
  by_cases hle : start ≤ j
  · have := h.greatest (j - start) (occurs_drop.mpr (by rwa [Nat.add_sub_cancel' hle]))
    omega
  · omega

/-- What is not in a window at the end of the content begins before it. -/
theorem Occurs.lt_of_drop {start : Nat} (h : Occurs pattern content i)
    (hno : ∀ j, ¬Occurs pattern (content.drop start) j) : i < start := by
  refine Nat.lt_of_not_le ?_
  intro hle
  exact hno (i - start) (occurs_drop.mpr (by rwa [Nat.add_sub_cancel' hle]))

/-- **The overlap of two windows**: what begins before the window that was searched has ended
when one byte less than the pattern is past, so nothing is lost with the bytes after that. -/
theorem lastIn_take_of_drop {start : Nat} (hp : pattern ≠ [])
    (hno : ∀ j, ¬Occurs pattern (content.drop start) j) :
    lastIn pattern (content.take (start + (pattern.length - 1))) = lastIn pattern content := by
  have hpos : 0 < pattern.length := List.length_pos_iff.mpr hp
  refine lastIn_congr hp ?_
  intro j
  rw [occurs_take hp]
  constructor
  · exact And.left
  · intro h
    have := h.lt_of_drop hno
    exact ⟨h, by omega⟩

/-- **One window after the other** gives what a search of everything before `stop`
gives. -/
theorem lastBefore_eq {size : Nat} (positive : 0 < size) (fits : pattern.length ≤ size)
    (hp : pattern ≠ []) {stop : Nat} (hstop : stop ≤ content.length) :
    lastBefore size content pattern positive fits stop =
      .ok (lastIn pattern (content.take stop)) := by
  -- the window moves by at least one byte, since the pattern is not longer than it
  induction stop using Nat.strongRecOn with
  | ind stop ih =>
    have hwindow : (content.drop (stop - size)).take (stop - (stop - size)) =
        (content.take stop).drop (stop - size) := by
      rw [List.drop_take]
    have hlength : ((content.take stop).drop (stop - size)).length = stop - (stop - size) := by
      rw [List.length_drop, List.length_take]
      omega
    rw [lastBefore]
    simp only [hwindow, hlength, Nat.lt_irrefl, if_false]
    cases hlast : lastIn pattern ((content.take stop).drop (stop - size)) with
    | some i =>
      have hfound := ((lastIn_eq_some_iff hp).mp hlast).of_drop
      exact congrArg Except.ok ((lastIn_eq_some_iff hp).mpr hfound).symm
    | none =>
      have hno := (lastIn_eq_none_iff hp).mp hlast
      by_cases hzero : stop - size = 0
      · simp only [hzero, dif_pos]
        rw [hzero, List.drop_zero] at hlast
        rw [hlast]
      · simp only [hzero, dif_neg, not_false_eq_true]
        have hnext : stop - size + (pattern.length - 1) < stop := by omega
        rw [ih _ hnext (by omega), ← lastIn_take_of_drop hp hno, List.take_take,
          Nat.min_eq_left (Nat.le_of_lt hnext)]

/-- The scan of the first `n` bytes gives what a search of them gives. -/
theorem lastOccurrence_eq {n : Nat} (hp : pattern ≠ []) (hfits : pattern.length ≤ windowSize)
    (hn : n ≤ content.length) :
    lastOccurrence content n pattern = .ok (lastIn pattern (content.take n)) := by
  rw [lastOccurrence, dif_pos hfits]
  by_cases hshort : n < pattern.length
  · have hnone : lastIn pattern (content.take n) = none := by
      rw [lastIn_eq_none_iff hp]
      intro i hi
      have := hi.length_le hp
      rw [List.length_take] at this
      omega
    rw [if_pos (by simp [hshort]), hnone]
  · rw [if_neg (by simp [hp, hshort]), lastBefore_eq _ _ hp hn]

/-- The scan of the whole content gives what a search of it gives. -/
theorem lastOccurrence_eq_lastIn (hp : pattern ≠ []) (hfits : pattern.length ≤ windowSize) :
    lastOccurrence content content.length pattern = .ok (lastIn pattern content) := by
  rw [lastOccurrence_eq hp hfits (Nat.le_refl _), List.take_length]

/-- **The scan finds the last occurrence** of every pattern that a window can hold, wherever
the windows fall.  With a smaller length it finds what is the last in that many bytes. -/
theorem lastOccurrence_finds (pattern content : Bytes) (hp : pattern ≠ [])
    (hfits : pattern.length ≤ windowSize) :
    (∃ found, lastOccurrence content content.length pattern = .ok found ∧
      Finds pattern content found) ∧
    ∀ n ≤ content.length, lastOccurrence content n pattern =
      lastOccurrence (content.take n) (content.take n).length pattern := by
  constructor
  · exact ⟨_, lastOccurrence_eq_lastIn hp hfits, finds_lastIn hp⟩
  · intro n hn
    rw [lastOccurrence_eq hp hfits hn, lastOccurrence_eq_lastIn hp hfits]

/-- Two bytes that stand across the border of the last window. -/
def straddled : Bytes := List.replicate 10 7 ++ ([1, 2] ++ List.replicate (windowSize - 1) 7)

theorem isLast_straddled : IsLast [1, 2] straddled 10 := by
  constructor
  · rw [Occurs, straddled, List.drop_left' List.length_replicate]
    exact List.prefix_append _ _
  · intro j hj
    refine Nat.le_of_not_lt ?_
    intro hlt
    obtain ⟨k, rfl⟩ := Nat.exists_eq_add_of_lt hlt
    -- only a two and sevens are left there, and the pattern begins with a one
    have hrest : [1, 2] <+: (2 :: List.replicate (windowSize - 1) (7 : UInt8)).drop k := by
      have h := occurs_drop.mpr (show Occurs [1, 2] straddled (10 + (1 + k)) by
        rwa [← Nat.add_assoc, Nat.add_right_comm])
      rwa [straddled, List.drop_left' List.length_replicate, ← occurs_drop] at h
    have hone := List.mem_of_mem_drop (hrest.subset (List.mem_cons_self ..))
    simp at hone

theorem lastOccurrence_finds_straddled :
    ([1, 2] : Bytes) ≠ [] ∧ ([1, 2] : Bytes).length ≤ windowSize ∧
      lastOccurrence straddled straddled.length [1, 2] = .ok (some 10) ∧
      lastOccurrence straddled 11 [1, 2] =
        lastOccurrence (straddled.take 11) (straddled.take 11).length [1, 2] := by
  obtain ⟨⟨found, hscan, hfound⟩, hshorter⟩ :=
    lastOccurrence_finds [1, 2] straddled (by decide) (by decide)
  have hlength : 11 ≤ straddled.length := by
    simp [straddled]
  refine ⟨by decide, by decide, ?_, hshorter 11 hlength⟩
  rw [hscan, (hfound.position 10).mpr isLast_straddled]

end Stowage.Scan
