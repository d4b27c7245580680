import Stowage.Hosted.Configuration

/-!
# Where the fields of a record lie

A record is placed slot by slot, each behind the one before it.  So whatever the slots are, as
long as their names differ, no two of them overlap, each starts at a whole word, and all of
them lie within the record (`startFrom_separate`, `startFrom_bounds`).  A layout is regular if
its names differ and it has every field that is written (`Layout.IsRegular`), as the supported
ones do.  In a regular record a number that is written is the only thing that changes
(`words_setInt`, `words_setLong`).
-/

namespace Stowage

namespace FieldWidth

theorem alignment_pos (w : FieldWidth) : 0 < w.alignment := by cases w <;> decide

theorem four_dvd_alignment (w : FieldWidth) : 4 ∣ w.alignment := by cases w <;> decide

theorem four_dvd_size (w : FieldWidth) : 4 ∣ w.size := by cases w <;> decide

end FieldWidth

theorem ConfigField.mem_all (f : ConfigField) : f ∈ all := by cases f <;> decide

/-- Fields are known by their names. -/
theorem ConfigField.name_inj {f g : ConfigField} (h : f.name = g.name) : f = g := by
  revert h
  exact (by decide : ∀ f ∈ all, ∀ g ∈ all, f.name = g.name → f = g) f f.mem_all g g.mem_all

namespace Layout

/-! ## Placing slots -/

theorem le_alignUp (position : Nat) {alignment : Nat} (h : 0 < alignment) :
    position ≤ alignUp position alignment := by
  have hmod := Nat.div_add_mod (position + alignment - 1) alignment
  have hlt := Nat.mod_lt (position + alignment - 1) h
  rw [Nat.mul_comm] at hmod
  unfold alignUp
  omega

theorem four_dvd_alignUp (position : Nat) (w : FieldWidth) : 4 ∣ alignUp position w.alignment :=
  Nat.dvd_mul_left_of_dvd w.four_dvd_alignment _

/-- Where the slot of a name starts, when slots are placed from a position on. -/
def startFrom (position : Nat) (slots : List Slot) (name : String) : Nat :=
  ((placedFrom position slots).lookup name).getD 0

theorem startFrom_head (position : Nat) (slot : Slot) (rest : List Slot) :
    startFrom position (slot :: rest) slot.1 = alignUp position slot.2.alignment := by
  simp [startFrom, placedFrom]

theorem startFrom_tail {position : Nat} {slot : Slot} {rest : List Slot} {name : String}
    (h : name ≠ slot.1) : startFrom position (slot :: rest) name =
      startFrom (alignUp position slot.2.alignment + slot.2.size) rest name := by
  have hbeq : (name == slot.1) = false := by simpa using h
  simp [startFrom, placedFrom, List.lookup_cons, hbeq]

theorem ne_of_mem_rest {slot first : Slot} {rest : List Slot}
    (hnames : ((first :: rest).map (·.1)).Nodup) (h : slot ∈ rest) : slot.1 ≠ first.1 := by
  have hfirst : first.1 ∉ rest.map (·.1) := (List.nodup_cons.mp hnames).1
  exact fun heq => hfirst (heq ▸ List.mem_map_of_mem h)

theorem le_endFrom (position : Nat) (slots : List Slot) : position ≤ endFrom position slots := by
  induction slots generalizing position with
  | nil => exact Nat.le_refl _
  | cons slot rest ih =>
    have halign := le_alignUp position slot.2.alignment_pos
    have hrest := ih (alignUp position slot.2.alignment + slot.2.size)
    exact Nat.le_trans (by omega) hrest

/-- A slot lies between the first and the last position, and starts at a whole word. -/
theorem startFrom_bounds (position : Nat) {slots : List Slot} {slot : Slot}
    (hslot : slot ∈ slots) (hnames : (slots.map (·.1)).Nodup) :
    position ≤ startFrom position slots slot.1 ∧ 4 ∣ startFrom position slots slot.1 ∧
      startFrom position slots slot.1 + slot.2.size ≤ endFrom position slots := by
  induction slots generalizing position with
  | nil => cases hslot
  | cons first rest ih =>
    have halign := le_alignUp position first.2.alignment_pos
    rcases List.mem_cons.mp hslot with rfl | hlater
    · rw [startFrom_head]
      exact ⟨halign, four_dvd_alignUp _ _, le_endFrom _ rest⟩
    · rw [startFrom_tail (ne_of_mem_rest hnames hlater)]
      obtain ⟨hlow, hword, hhigh⟩ := ih (alignUp position first.2.alignment + first.2.size) hlater
        (List.nodup_cons.mp hnames).2
      exact ⟨by omega, hword, hhigh⟩

/-- Two slots do not overlap. -/
theorem startFrom_separate {position : Nat} {slots : List Slot} {a b : Slot} (ha : a ∈ slots)
    (hb : b ∈ slots) (hab : a.1 ≠ b.1) (hnames : (slots.map (·.1)).Nodup) :
    startFrom position slots a.1 + a.2.size ≤ startFrom position slots b.1 ∨
      startFrom position slots b.1 + b.2.size ≤ startFrom position slots a.1 := by
  induction slots generalizing position with
  | nil => cases ha
  | cons first rest ih =>
    have hrest := (List.nodup_cons.mp hnames).2
    rcases List.mem_cons.mp ha with rfl | ha' <;> rcases List.mem_cons.mp hb with rfl | hb'
    · exact absurd rfl hab
    · rw [startFrom_head, startFrom_tail (ne_of_mem_rest hnames hb')]
      exact .inl (startFrom_bounds _ hb' hrest).1
    · rw [startFrom_head, startFrom_tail (ne_of_mem_rest hnames ha')]
      exact .inr (startFrom_bounds _ ha' hrest).1
    · rw [startFrom_tail (ne_of_mem_rest hnames ha'), startFrom_tail (ne_of_mem_rest hnames hb')]
      exact ih ha' hb' hrest

/-! ## Regular layouts -/

/-- The slots of a layout have different names, and every field that is written is among them. -/
structure IsRegular (l : Layout) : Prop where
  names : (l.slots.map (·.1)).Nodup
  fields : ∀ f : ConfigField, (f.name, f.width) ∈ l.slots

theorem names_nodup : ∀ v ∈ supported, (v.2.slots.map (·.1)).Nodup := by decide +kernel

/-- Every supported record is regular. -/
theorem isRegular_of_ofVersion? {version : UInt32} {l : Layout} (h : ofVersion? version = some l) :
    l.IsRegular := by
  obtain ⟨before, after, heq, -⟩ := List.lookup_eq_some_iff.mp h
  have hmem : (version, l) ∈ supported := heq ▸ by simp
  exact ⟨names_nodup _ hmem, fun f => has_fields _ hmem f f.mem_all⟩

/-- The words of a field. -/
def words (l : Layout) (record : Words) (f : ConfigField) : Words :=
  (record.drop (l.offset f / 4)).take (f.width.size / 4)

variable {l : Layout} {record : Words} {f g : ConfigField}

theorem getElem?_words (l : Layout) (record : Words) (f : ConfigField) (i : Nat) :
    (l.words record f)[i]? =
      if i < f.width.size / 4 then record[l.offset f / 4 + i]? else none := by
  rw [words, List.getElem?_take, List.getElem?_drop]

namespace IsRegular

/-- A field lies within the record, and starts at a whole word. -/
theorem offset_bounds (h : l.IsRegular) (f : ConfigField) :
    4 ∣ l.offset f ∧ l.offset f + f.width.size ≤ l.size := by
  obtain ⟨-, hword, hend⟩ := startFrom_bounds 0 (h.fields f) h.names
  exact ⟨hword, Nat.le_trans hend (le_alignUp _ (by decide))⟩

/-- Two fields do not overlap. -/
theorem offset_separate (h : l.IsRegular) (hfg : f ≠ g) :
    l.offset f + f.width.size ≤ l.offset g ∨ l.offset g + g.width.size ≤ l.offset f :=
  startFrom_separate (h.fields f) (h.fields g) (fun hname => hfg (ConfigField.name_inj hname))
    h.names

/-- Two fields start at different places. -/
theorem offset_ne (h : l.IsRegular) (hfg : f ≠ g) : l.offset f ≠ l.offset g := by
  have hseparate := h.offset_separate hfg
  have hf : 0 < f.width.size := by cases f.width <;> decide
  have hg : 0 < g.width.size := by cases g.width <;> decide
  omega

/-- A word of a field that is written belongs to no other field. -/
theorem words_set (h : l.IsRegular) (hfg : f ≠ g) {i : Nat} (hi : i < g.width.size / 4)
    (value : UInt32) : l.words (record.set (l.offset g / 4 + i) value) f = l.words record f := by
  have hseparate := h.offset_separate hfg
  obtain ⟨hf, -⟩ := h.offset_bounds f
  obtain ⟨hg, -⟩ := h.offset_bounds g
  have hsize := f.width.four_dvd_size
  refine List.ext_getElem? fun j => ?_
  rw [getElem?_words, getElem?_words]
  split
  · rw [List.getElem?_set_ne (by omega)]
  · rfl

end IsRegular

/-! ## Writing numbers -/

/-- A record has room for all fields of a layout. -/
def Fits (l : Layout) (record : Words) : Prop := l.size / 4 ≤ record.length

theorem fits_zero (l : Layout) : l.Fits (Words.zero l.size) := by
  simp [Fits, Words.zero]

theorem Fits.setInt (h : l.Fits record) (offset : Nat) (value : Int32) :
    l.Fits (record.setInt offset value) := by
  simpa [Fits, Words.setInt] using h

theorem Fits.setInts (h : l.Fits record) (values : List (ConfigField × Int32)) :
    l.Fits (values.foldl (fun r (f, v) => Words.setInt r (l.offset f) v) record) := by
  induction values generalizing record with
  | nil => exact h
  | cons p rest ih => exact ih (h.setInt _ _)

namespace IsRegular

theorem words_setInt_ne (h : l.IsRegular) (hfg : f ≠ g) (value : Int32) :
    l.words (record.setInt (l.offset g) value) f = l.words record f := by
  have hword : 0 < g.width.size / 4 := by cases g.width <;> decide
  exact h.words_set hfg hword _

theorem words_setLong_ne (h : l.IsRegular) (hfg : f ≠ g) (hg : g.width = .long) (value : UInt64) :
    l.words (record.setLong (l.offset g) value) f = l.words record f := by
  have hlow : 0 < g.width.size / 4 := by rw [hg]; decide
  have hhigh : 1 < g.width.size / 4 := by rw [hg]; decide
  exact (h.words_set hfg hhigh _).trans (h.words_set hfg hlow _)

theorem words_setInt (h : l.IsRegular) (hfits : l.Fits record) (hf : f.width = .int)
    (value : Int32) : l.words (record.setInt (l.offset f) value) f = [value.toUInt32] := by
  obtain ⟨hword, hend⟩ := h.offset_bounds f
  rw [hf] at hend
  have hlength : l.offset f / 4 < record.length := by
    simp only [Fits, FieldWidth.size] at hfits hend
    omega
  refine List.ext_getElem? fun i => ?_
  rw [getElem?_words, hf]
  cases i with
  | zero => simp [FieldWidth.size, Words.setInt, hlength]
  | succ i => simp [FieldWidth.size]

theorem words_setLong (h : l.IsRegular) (hfits : l.Fits record) (hf : f.width = .long)
    (value : UInt64) : l.words (record.setLong (l.offset f) value) f =
      [value.toUInt32, (value >>> 32).toUInt32] := by
  obtain ⟨hword, hend⟩ := h.offset_bounds f
  rw [hf] at hend
  have hlength : l.offset f / 4 + 1 < record.length := by
    simp only [Fits, FieldWidth.size] at hfits hend
    omega
  refine List.ext_getElem? fun i => ?_
  rw [getElem?_words, hf]
  match i with
  | 0 =>
    have : l.offset f / 4 < record.length := by omega
    simp [FieldWidth.size, Words.setLong, this]
  | 1 => simp [FieldWidth.size, Words.setLong, hlength]
  | i + 2 => simp [FieldWidth.size, show ¬ i + 2 < 2 by omega]

/-- Several numbers, no two of them for one field. -/
theorem words_setInts (h : l.IsRegular) {values : List (ConfigField × Int32)}
    (hints : ∀ p ∈ values, p.1.width = .int) (hdistinct : (values.map (·.1)).Nodup)
    (hfits : l.Fits record) (f : ConfigField) :
    l.words (values.foldl (fun r (g, v) => Words.setInt r (l.offset g) v) record) f =
      ((values.lookup f).map fun v => [v.toUInt32]).getD (l.words record f) := by
  induction values generalizing record with
  | nil => rfl
  | cons p rest ih =>
    obtain ⟨g, value⟩ := p
    have hg : g ∉ rest.map (·.1) := (List.nodup_cons.mp hdistinct).1
    rw [List.foldl_cons, ih (fun p hp => hints p (List.mem_cons_of_mem _ hp))
      (List.nodup_cons.mp hdistinct).2 (hfits.setInt _ _), List.lookup_cons]
    by_cases hfg : f = g
    · -- no later number is for this field
      subst hfg
      have hnone : rest.lookup f = none := by
        refine List.lookup_eq_none_iff.mpr fun p hp => ?_
        rw [bne_iff_ne]
        exact fun heq => hg (heq ▸ List.mem_map_of_mem hp)
      simp only [hnone, beq_self_eq_true, Option.map_none, Option.getD_none, Option.map_some,
        Option.getD_some]
      exact h.words_setInt hfits (hints _ List.mem_cons_self) value
    · rw [h.words_setInt_ne hfg, beq_eq_false_iff_ne.mpr hfg]

end IsRegular

end Layout

namespace Filling

/-- The words that the options ask of a field that is a number, if they ask for any. -/
def numberWords? (o : RuntimeOptions) (f : ConfigField) : Option Words :=
  match f, o.hashSeed with
  | .useHashSeed, some _ => some [1]
  | .hashSeed, some seed => some [seed.toUInt32, (seed >>> 32).toUInt32]
  | f, _ => ((numbers o).lookup f).map fun value => [value.toUInt32]

/-- **Writing the numbers** writes the words that the options ask for, and no others. -/
theorem words_setNumbers {l : Layout} (h : l.IsRegular) (o : RuntimeOptions) {record : Words}
    (hfits : l.Fits record) (f : ConfigField) :
    l.words (setNumbers l o record) f = (numberWords? o f).getD (l.words record f) := by
  have hints : ∀ p ∈ numbers o, p.1.width = .int := by simp [numbers, ConfigField.width]
  have hplain := h.words_setInts hints (by simp [numbers]) hfits
  have hroom := hfits.setInts (numbers o)
  unfold setNumbers numberWords?
  cases o.hashSeed with
  | none => cases f <;> exact hplain _
  | some seed =>
    by_cases hlong : f = .hashSeed
    · subst hlong
      exact h.words_setLong (hroom.setInt _ _) rfl seed
    · refine (h.words_setLong_ne hlong rfl seed).trans ?_
      by_cases huse : f = .useHashSeed
      · subst huse
        exact h.words_setInt hroom rfl 1
      · refine (h.words_setInt_ne huse 1).trans ((hplain f).trans ?_)
        cases f <;> first | rfl | exact absurd rfl hlong | exact absurd rfl huse

end Filling

end Stowage
