/-!
# Blank characters and trimming

A character is blank when it has the `White_Space` property of Unicode. Trimming takes the blank
characters off both ends of a text and leaves the middle as it is. Splitting once cuts a text at
the first occurrence of a separator.
-/

namespace Stowage.Text

/-- The code points with the `White_Space` property, as inclusive ranges in ascending order. -/
def blankRanges : List (Nat × Nat) :=
  [(0x09, 0x0D), (0x20, 0x20), (0x85, 0x85), (0xA0, 0xA0), (0x1680, 0x1680), (0x2000, 0x200A),
    (0x2028, 0x2029), (0x202F, 0x202F), (0x205F, 0x205F), (0x3000, 0x3000)]

/-- A character is blank when its code point lies in one of the blank ranges. -/
def isBlank (c : Char) : Bool :=
  blankRanges.any fun (low, high) => low ≤ c.toNat && c.toNat ≤ high

/-- The characters of a text without the blank ones at both ends. -/
def trimChars (cs : List Char) : List Char :=
  ((cs.dropWhile isBlank).reverse.dropWhile isBlank).reverse

/-- A text without the blank characters at both ends. -/
def trim (s : String) : String :=
  String.ofList (trimChars s.toList)

/-- What stands before and after the first `separator`; nothing if it does not occur. -/
def splitOnceChars (separator : Char) : List Char → Option (List Char × List Char)
  | [] => none
  | c :: cs =>
    if c = separator then some ([], cs)
    else (splitOnceChars separator cs).map fun (before, after) => (c :: before, after)

/-- What stands before and after the first `separator` of a text; nothing if it does not occur. -/
def splitOnce (separator : Char) (s : String) : Option (String × String) :=
  (splitOnceChars separator s.toList).map fun (before, after) =>
    (String.ofList before, String.ofList after)

/-- What follows `lead` in a text that starts with it. -/
def afterLead? (lead s : String) : Option String :=
  if lead.toList.isPrefixOf s.toList then some (String.ofList (s.toList.drop lead.toList.length))
  else none

/-- A successful split gives the text back with the separator between the two parts, and the
first part is free of the separator. -/
theorem splitOnceChars_eq_some {separator : Char} {cs before after : List Char}
    (h : splitOnceChars separator cs = some (before, after)) :
    cs = before ++ separator :: after ∧ separator ∉ before := by
  induction cs generalizing before with
  | nil => simp [splitOnceChars] at h
  | cons c cs ih =>
    unfold splitOnceChars at h
    split at h
    · next hc =>
      cases h
      simp [hc]
    · next hc =>
      obtain ⟨⟨b, a⟩, hba, heq⟩ := Option.map_eq_some_iff.mp h
      cases heq
      obtain ⟨rfl, hnot⟩ := ih hba
      exact ⟨rfl, by simp [Ne.symm hc, hnot]⟩

/-- Two parts that are put together with a separator are split again, if the first part is free of
the separator. -/
theorem splitOnceChars_append {separator : Char} {before : List Char} (h : separator ∉ before)
    (after : List Char) :
    splitOnceChars separator (before ++ separator :: after) = some (before, after) := by
  induction before with
  | nil => simp [splitOnceChars]
  | cons c before ih =>
    rw [List.mem_cons, not_or] at h
    simp [splitOnceChars, Ne.symm h.1, ih h.2]

/-- A text splits exactly when it holds the separator. -/
theorem splitOnceChars_eq_none {separator : Char} {cs : List Char} :
    splitOnceChars separator cs = none ↔ separator ∉ cs := by
  induction cs with
  | nil => simp [splitOnceChars]
  | cons c cs ih =>
    unfold splitOnceChars
    split
    · next hc => simp [hc]
    · next hc => simp [ih, Ne.symm hc]

end Stowage.Text
