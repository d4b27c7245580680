import Stowage.Proofs.Path.Parents

/-!
# Normal paths

Lexical normalisation goes through the components of a path and lets every `..` take
away the name before it.  This module says what comes out without following it
through.

* Some components *stay below* their start (`StaysBelow`) when no first part of them has
  more `..` than names.  A relative path can be normalised exactly when its components
  do.
* A name *remains* (`remaining`) when what follows it stays below it, for then no later
  `..` gets as far as this name.

That the names that remain are those of the stack is one induction over the components,
in which the stack may hold names already: `climb` is the number of these that are taken
away (`foldlM_reduceStep`).

A path can also be normalised by joining and cutting texts (`extend`), which comes to the
same (`normalizeRelative_eq_foldlM`).
-/

namespace Stowage.Path

variable {cs : List Component} {names : List String}

/-! ## What remains of some components -/

/-- No first part of some components has more `..` than names. -/
def StaysBelow (cs : List Component) : Prop :=
  ∀ pre, pre <+: cs → pre.count .up ≤ pre.countP Component.isName

/-- How far some components climb above their start. -/
def climb : List Component → Nat
  | [] => 0
  | .name _ :: rest => climb rest - 1
  | .up :: rest => climb rest + 1
  | _ :: rest => climb rest

theorem forall_prefix_cons {α : Type} {x : α} {xs : List α} {P : List α → Prop} :
    (∀ pre, pre <+: x :: xs → P pre) ↔ P [] ∧ ∀ pre, pre <+: xs → P (x :: pre) := by
  constructor
  · exact fun h => ⟨h [] List.nil_prefix, fun pre hpre =>
      h _ (List.cons_prefix_cons.mpr ⟨rfl, hpre⟩)⟩
  · rintro ⟨hnil, hcons⟩ pre hpre
    cases pre with
    | nil => exact hnil
    | cons y pre =>
      obtain ⟨rfl, hpre'⟩ := List.cons_prefix_cons.mp hpre
      exact hcons pre hpre'

/-- **How far some components climb** is how many more `..` than names a first part has. -/
theorem climb_le_iff {k : Nat} : climb cs ≤ k ↔
    ∀ pre, pre <+: cs → pre.count .up ≤ pre.countP Component.isName + k := by
  induction cs generalizing k with
  | nil => simp [climb]
  | cons c rest ih =>
    rw [forall_prefix_cons]
    cases c with
    | name s =>
      rw [climb, Nat.sub_le_iff_le_add, ih]
      simp [List.countP_cons, Component.isName, Nat.add_right_comm, Nat.add_assoc]
    | up =>
      cases k with
      | zero =>
        simp only [climb, Nat.le_zero_eq, Nat.add_one_ne_zero, false_iff, not_and]
        intro _ h
        simpa [Component.isName] using h [] List.nil_prefix
      | succ k =>
        rw [climb, Nat.add_le_add_iff_right, ih]
        simp [Component.isName, ← Nat.add_assoc]
    | here | root =>
      show climb rest ≤ k ↔ _
      rw [ih]
      simp [Component.isName]

theorem staysBelow_iff : StaysBelow cs ↔ climb cs = 0 := by
  rw [← Nat.le_zero, climb_le_iff]
  rfl

instance (cs : List Component) : Decidable (StaysBelow cs) :=
  decidable_of_iff _ staysBelow_iff.symm

/-- The names that no later `..` takes away: what follows such a name stays below it. -/
def remaining : List Component → List String
  | [] => []
  | .name s :: rest => if StaysBelow rest then s :: remaining rest else remaining rest
  | _ :: rest => remaining rest

theorem mem_of_remaining {s : String} (h : s ∈ remaining cs) : Component.name s ∈ cs := by
  fun_induction remaining cs with
  | case1 => cases h
  | case2 t rest _ ih =>
    rcases List.mem_cons.mp h with rfl | h
    · exact List.mem_cons_self
    · exact List.mem_cons_of_mem _ (ih h)
  | case3 t rest _ ih => exact List.mem_cons_of_mem _ (ih h)
  | case4 c rest _ ih => exact List.mem_cons_of_mem _ (ih h)

/-- **The stack after some components**: the names that remain, above those that were in it
before and have not been taken away.  There must have been enough of these. -/
theorem foldlM_reduceStep (hroot : Component.root ∉ cs) (stack : List String) :
    cs.foldlM reduceStep stack = if climb cs ≤ stack.length then
      some ((remaining cs).reverse ++ stack.drop (climb cs)) else none := by
  induction cs generalizing stack with
  | nil => simp [climb, remaining]
  | cons c rest ih =>
    have ih := ih fun h => hroot (List.mem_cons_of_mem _ h)
    rw [List.foldlM_cons]
    cases c with
    | root => exact absurd List.mem_cons_self hroot
    | here => exact ih stack
    | up =>
      cases stack with
      | nil => simp [reduceStep, climb]
      | cons t stack => simpa [reduceStep, climb, remaining] using ih stack
    | name s =>
      have hstep : reduceStep stack (.name s) = some (s :: stack) := rfl
      rw [hstep, Option.bind_eq_bind, Option.bind_some, ih, climb, remaining]
      simp only [List.length_cons, Nat.sub_le_iff_le_add]
      by_cases hstays : StaysBelow rest
      · have hclimb := staysBelow_iff.mp hstays
        simp [hstays, hclimb]
      · obtain ⟨d, hd⟩ := Nat.exists_eq_succ_of_ne_zero (mt staysBelow_iff.mpr hstays)
        simp [hstays, hd]

/-- **Normalisation keeps the names that remain.** -/
theorem reduce_eq (hroot : Component.root ∉ cs) :
    reduce cs = if StaysBelow cs then some (remaining cs).reverse else none := by
  rw [reduce, foldlM_reduceStep hroot]
  simp [staysBelow_iff]

/-! ## Normalised paths -/

theorem root_notMem_components {p : Path} (h : p.isAbsolute = false) :
    Component.root ∉ p.components := by
  intro hmem
  rw [components_eq, List.mem_append] at hmem
  rcases hmem with hmem | hmem
  · cases hs : startOf p.chars with
    | root =>
      rw [(isAbsolute_iff_startOf p).mpr hs] at h
      cases h
    | here | plain => simp [hs, Start.components] at hmem
  · obtain ⟨q, -, hq⟩ := List.mem_map.mp hmem
    have hstep := isStep_componentOf q
    rw [hq] at hstep
    cases hstep

/-- An absolute path is not normalised. -/
theorem reduce_of_isAbsolute {p : Path} (h : p.isAbsolute = true) :
    reduce p.components = none := by
  rw [components_eq, (isAbsolute_iff_startOf p).mp h]
  rfl

/-- **What normalisation makes of a path.** -/
theorem normalizeRelative_eq (p : Path) : p.normalizeRelative =
    if p.isAbsolute = false ∧ StaysBelow p.components then some (ofNames (remaining p.components))
    else none := by
  rw [normalizeRelative]
  cases habs : p.isAbsolute with
  | true => simp [reduce_of_isAbsolute habs]
  | false =>
    rw [reduce_eq (root_notMem_components habs)]
    by_cases hstays : StaysBelow p.components <;> simp [hstays]

/-- A path that has been normalised is left as it is. -/
theorem normalizeRelative_ofNames (hn : ∀ s ∈ names, IsName s) :
    (ofNames names).normalizeRelative = some (ofNames names) := by
  rw [normalizeRelative, components_ofNames hn, reduce_names]
  simp

theorem isName_of_remaining {p : Path} : ∀ s ∈ remaining p.components, IsName s :=
  fun _ hs => isName_of_mem_components (mem_of_remaining hs)

/-! ## Joining and cutting texts -/

/-- What a component does to a path that is built step by step: a name is joined to it, and
`..` goes back to its parent. -/
def extend (out : Path) : Component → Option Path
  | .name s => some (out.join ⟨s⟩)
  | .here => some out
  | .up => out.parent?
  | .root => none

theorem isIdle_toList {s : String} (h : IsName s) : isIdle s.toList = false := by
  have hempty : s.toList ≠ [] := fun he => h.ne_empty (String.toList_inj.mp he)
  have hdot : s.toList ≠ ['.'] := fun he => h.ne_dot (String.toList_inj.mp he)
  simp [isIdle, hempty, hdot]

/-- Proper names are not trimmed. -/
theorem trimmedPieces_names (hn : ∀ s ∈ names, IsName s) :
    trimmedPieces (names.map String.toList) = names.map String.toList := by
  rcases List.eq_nil_or_concat names with rfl | ⟨init, s, rfl⟩
  · rfl
  · have hs := isIdle_toList (hn s (by simp))
    simp [trimmedPieces, hs]

/-- **Joining a name** to some names. -/
theorem join_name (hn : ∀ s ∈ names, IsName s) {s : String} (hs : IsName s) :
    (ofNames names).join ⟨s⟩ = ofNames (names ++ [s]) := by
  have habs : isAbsolute ⟨s⟩ = false := by
    rw [isAbsolute, beq_eq_false_iff_ne]
    exact fun h => hs.no_slash (List.mem_of_mem_head? h)
  by_cases hnil : names = []
  · subst hnil
    simp [join, habs, ofNames, chars, ofChars]
  have hslash : (ofNames names).chars.getLast? ≠ some '/' := by
    have hends := (isTrim_ofNames hn hnil).endsInSlash
    simpa [endsInSlash, steps_ofNames hn, hnil] using hends
  have hchars : (ofNames names).chars ≠ [] := fun he => by
    have hsteps := steps_ofNames hn
    rw [steps_eq, he] at hsteps
    exact hnil hsteps.symm
  have hjoin : (ofNames names).join ⟨s⟩ = ofChars ((ofNames names).chars ++ '/' :: s.toList) := by
    rw [join, habs, if_neg Bool.false_ne_true]
    split
    · rename_i hnone
      exact absurd (List.getLast?_eq_none_iff.mp hnone) hchars
    · rename_i hlast
      exact absurd hlast hslash
    · rfl
  rw [hjoin, ofNames, ofNames, chars_ofChars, List.map_append, List.map_singleton,
    intercalate_append (by simpa using hnil) (List.cons_ne_nil _ _), List.intercalate_singleton]

/-- **The parent of some names** has all of them but the last. -/
theorem parent?_ofNames (hn : ∀ s ∈ names, IsName s) :
    (ofNames names).parent? = if names = [] then none else some (ofNames names.dropLast) := by
  by_cases hnil : names = []
  · subst hnil
    rfl
  have hmap : names.map String.toList ≠ [] := by simpa using hnil
  have hinit : ∀ s ∈ names.dropLast, IsName s := fun s hs => hn s (List.dropLast_subset _ hs)
  rw [parent?, ofNames_eq_assemble, startOf_assemble (fits_plain_map_toList hn)
    (slashFree_map_toList hn), pieces_assemble (fits_plain_map_toList hn)
    (slashFree_map_toList hn) hmap, trimmedPieces_names hn, if_neg hnil]
  obtain ⟨q, qs, hq⟩ := List.exists_cons_of_ne_nil hmap
  rw [hq]
  simp only
  rw [← hq, ← List.map_dropLast, trimmedPieces_names hinit]
  rfl

/-- One step of normalisation, on the stack and on the text made from it. -/
theorem extend_ofNames {stack : List String} (hs : ∀ s ∈ stack, IsName s) {c : Component}
    (hc : ∀ s, c = .name s → IsName s) : extend (ofNames stack.reverse) c =
      (reduceStep stack c).map fun stack => ofNames stack.reverse := by
  have hs' : ∀ s ∈ stack.reverse, IsName s := fun s h => hs s (List.mem_reverse.mp h)
  cases c with
  | name s => simp [extend, reduceStep, join_name hs' (hc s rfl)]
  | up =>
    rw [extend, parent?_ofNames hs']
    cases stack <;> simp [reduceStep]
  | here | root => rfl

theorem foldlM_extend (hc : ∀ s, Component.name s ∈ cs → IsName s) {stack : List String}
    (hs : ∀ s ∈ stack, IsName s) : cs.foldlM extend (ofNames stack.reverse) =
      (cs.foldlM reduceStep stack).map fun stack => ofNames stack.reverse := by
  induction cs generalizing stack with
  | nil => rfl
  | cons c cs ih =>
    rw [List.foldlM_cons, List.foldlM_cons, extend_ofNames hs fun s he => hc s (he ▸ by simp)]
    cases hstep : reduceStep stack c with
    | none => rfl
    | some stack' =>
      refine ih (fun s hs => hc s (List.mem_cons_of_mem _ hs)) fun s hs' => ?_
      rcases reduceStep_mem hstep hs' with h | rfl
      · exact hs s h
      · exact hc s List.mem_cons_self

/-- **A path is normalised by joining and cutting texts**, one component after the other. -/
theorem normalizeRelative_eq_foldlM (p : Path) :
    p.normalizeRelative = p.components.foldlM extend empty :=
  (foldlM_extend (fun _ => isName_of_mem_components) (List.forall_mem_nil IsName)).symm

/-! ## Names under a directory -/

/-- **What is put under a directory** is the directory with the names that remain. -/
theorem containedJoin_eq_if (root : Path) (name : String) : root.containedJoin name =
    if isAbsolute ⟨name⟩ = false ∧ StaysBelow (components ⟨name⟩) ∧
        remaining (components ⟨name⟩) ≠ [] then
      some (root.join (ofNames (remaining (components ⟨name⟩))))
    else none := by
  rw [containedJoin_eq, normalNames?]
  cases habs : isAbsolute ⟨name⟩ with
  | true => simp [reduce_of_isAbsolute habs]
  | false =>
    rw [reduce_eq (root_notMem_components habs)]
    by_cases hstays : StaysBelow (components ⟨name⟩) <;>
      by_cases hnil : remaining (components ⟨name⟩) = [] <;>
        simp [hstays, hnil, Option.filter_some]

/-- A path with further names after it lies properly below it. -/
theorem properly_below {root q : Path} (hne : names ≠ [])
    (h : q.components = root.components ++ names.map .name) :
    q.startsWith root = true ∧ q.same root = false := by
  constructor
  · rw [startsWith, h, List.isPrefixOf_iff_prefix]
    exact List.prefix_append _ _
  · rw [same, beq_eq_false_iff_ne, h]
    simpa using hne

/-- **Lexical normalisation is exact.**  A path is normalised if and only if it is relative and
stays below its start.  The result consists of the names that remain, it is what joining and
cutting texts comes to, and normalising it again changes nothing.  A name is put under a
directory if and only if it can be normalised and some name remains, and then it lies properly
below the directory, by these names and nothing else. -/
theorem normalizeRelative_exact (p root : Path) (name : String) :
    (p.normalizeRelative.isSome ↔ p.isAbsolute = false ∧ StaysBelow p.components) ∧
    p.normalizeRelative = p.components.foldlM extend empty ∧
    (∀ q, p.normalizeRelative = some q → q.components = (remaining p.components).map .name ∧
      q.normalizeRelative = some q) ∧
    ((root.containedJoin name).isSome ↔ isAbsolute ⟨name⟩ = false ∧
      StaysBelow (components ⟨name⟩) ∧ remaining (components ⟨name⟩) ≠ []) ∧
    ∀ q, root.containedJoin name = some q →
      q.components = root.components ++ (remaining (components ⟨name⟩)).map .name ∧
      q.startsWith root = true ∧ q.same root = false := by
  refine ⟨?_, normalizeRelative_eq_foldlM p, fun q hq => ?_, ?_, fun q hq => ?_⟩
  · rw [normalizeRelative_eq]
    split <;> simp_all
  · rw [normalizeRelative_eq, Option.ite_none_right_eq_some] at hq
    obtain ⟨-, hq⟩ := hq
    cases hq
    exact ⟨components_ofNames isName_of_remaining, normalizeRelative_ofNames isName_of_remaining⟩
  · rw [containedJoin_eq_if]
    split <;> simp_all
  · rw [containedJoin_eq_if, Option.ite_none_right_eq_some] at hq
    obtain ⟨⟨-, -, hne⟩, hq⟩ := hq
    cases hq
    have hcomps := components_join_ofNames (isName_of_remaining (p := ⟨name⟩)) root
    exact ⟨hcomps, properly_below hne hcomps⟩

/-- A path that goes up twice within itself, and a name that starts with a name that is taken
away. -/
theorem normalizeRelative_exact_winding :
    normalizeRelative ⟨"./a/..//b/c/../d"⟩ = some ⟨"b/d"⟩ ∧
    normalizeRelative ⟨"b/d"⟩ = some ⟨"b/d"⟩ ∧
    containedJoin ⟨"/extract"⟩ "a/../b" = some ⟨"/extract/b"⟩ ∧
    (⟨"/extract/b"⟩ : Path).startsWith ⟨"/extract"⟩ = true ∧
    (⟨"/extract/b"⟩ : Path).same ⟨"/extract"⟩ = false := by
  have hnormal : normalizeRelative ⟨"./a/..//b/c/../d"⟩ = some ⟨"b/d"⟩ := by decide +kernel
  have hjoin : containedJoin ⟨"/extract"⟩ "a/../b" = some ⟨"/extract/b"⟩ := by decide +kernel
  obtain ⟨-, -, hfixed, -, hbelow⟩ :=
    normalizeRelative_exact ⟨"./a/..//b/c/../d"⟩ ⟨"/extract"⟩ "a/../b"
  exact ⟨hnormal, (hfixed _ hnormal).2, hjoin, (hbelow _ hjoin).2⟩

end Stowage.Path
