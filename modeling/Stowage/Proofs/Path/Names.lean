import Stowage.Proofs.Path.Steps

/-!
# Proper names

A name is *proper* (`IsName`) when a directory can hold it: it is not empty, it is
not `.` or `..`, and it holds no slash.  Lists of proper names are what paths are
measured by: a location is one, lexical normalisation produces one, and a path made
from one has exactly these names as its components (`components_ofNames`,
`components_path`).

`containedJoin_eq_some` says what it means that a name has been put under a
directory: some proper names, at least one, have been joined to it.
-/

namespace Stowage

/-- A name that a directory can hold. -/
structure IsName (s : String) : Prop where
  ne_empty : s ≠ ""
  ne_dot : s ≠ "."
  ne_up : s ≠ ".."
  no_slash : '/' ∉ s.toList

instance (s : String) : Decidable (IsName s) :=
  decidable_of_iff (s ≠ "" ∧ s ≠ "." ∧ s ≠ ".." ∧ '/' ∉ s.toList)
    ⟨fun ⟨a, b, c, d⟩ => ⟨a, b, c, d⟩, fun ⟨a, b, c, d⟩ => ⟨a, b, c, d⟩⟩

namespace Path

/-- The names in the components of a path are proper. -/
theorem isName_of_mem_components {p : Path} {s : String} (h : Component.name s ∈ p.components) :
    IsName s := by
  rw [components_eq, List.mem_append] at h
  rcases h with h | h
  · cases hs : startOf p.chars <;> simp [hs, Start.components] at h
  obtain ⟨q, hq, he⟩ := List.mem_map.mp h
  obtain ⟨hmem, hidle⟩ := List.mem_filter.mp hq
  unfold componentOf at he
  split at he
  · cases he
  rename_i hup
  cases he
  have key : ∀ t : String, t.toList ≠ q → String.ofList q ≠ t := by
    rintro t ht rfl
    exact ht String.toList_ofList
  refine ⟨key _ ?_, key _ ?_, key _ ?_, by
    rw [String.toList_ofList]; exact slashFree_pieces p q hmem⟩
  · rintro rfl; simp [isIdle] at hidle
  · rintro rfl; simp [isIdle] at hidle
  · exact fun he => hup he.symm

/-! ## Normalisation -/

theorem reduceStep_mem {stack stack' : List String} {c : Component}
    (h : reduceStep stack c = some stack') {s : String} (hs : s ∈ stack') :
    s ∈ stack ∨ c = .name s := by
  cases c with
  | root => cases h
  | here => cases h; exact Or.inl hs
  | up =>
    cases stack with
    | nil => cases h
    | cons t rest => cases h; exact Or.inl (List.mem_cons_of_mem _ hs)
  | name t =>
    cases h
    rcases List.mem_cons.mp hs with rfl | hs
    · exact Or.inr rfl
    · exact Or.inl hs

theorem foldlM_reduceStep_mem {cs : List Component} {stack stack' : List String}
    (h : cs.foldlM reduceStep stack = some stack') {s : String} (hs : s ∈ stack') :
    s ∈ stack ∨ Component.name s ∈ cs := by
  induction cs generalizing stack with
  | nil => cases h; exact Or.inl hs
  | cons c cs ih =>
    rw [List.foldlM_cons] at h
    obtain ⟨mid, hmid, h⟩ := Option.bind_eq_some_iff.mp h
    rcases ih h with h' | h'
    · rcases reduceStep_mem hmid h' with h'' | rfl
      · exact Or.inl h''
      · exact Or.inr List.mem_cons_self
    · exact Or.inr (List.mem_cons_of_mem _ h')

/-- What normalisation leaves over are names of the path. -/
theorem mem_of_reduce {cs : List Component} {stack : List String} (h : reduce cs = some stack)
    {s : String} (hs : s ∈ stack) : Component.name s ∈ cs :=
  (foldlM_reduceStep_mem h hs).resolve_left List.not_mem_nil

theorem foldlM_reduceStep_names (names stack : List String) :
    (names.map Component.name).foldlM reduceStep stack = some (names.reverse ++ stack) := by
  induction names generalizing stack with
  | nil => rfl
  | cons s names ih =>
    rw [List.map_cons, List.foldlM_cons]
    show (names.map Component.name).foldlM reduceStep (s :: stack) = _
    rw [ih, List.reverse_cons, List.append_assoc]
    rfl

/-- Names alone are left as they are. -/
theorem reduce_names (names : List String) :
    reduce (names.map Component.name) = some names.reverse := by
  rw [reduce, foldlM_reduceStep_names, List.append_nil]

/-- Components that take steps but none of them up are names. -/
theorem eq_map_name {cs : List Component} (h : ∀ c ∈ cs, c.isStep = true)
    (hup : Component.up ∉ cs) : cs = (cs.map Component.text).map Component.name := by
  rw [List.map_map]
  refine (List.map_id'' (fun _ => rfl) cs).symm.trans (List.map_congr_left fun c hc => ?_)
  cases c with
  | name s => rfl
  | up => exact absurd hc hup
  | root | here => cases h _ hc

/-- A path that adds names to another takes them as steps. -/
theorem moves_of_names {p q : Path} {names : List String}
    (h : p.components = q.components ++ names.map .name) : p.moves = q.moves ++ names := by
  have hsteps : ∀ c ∈ names.map Component.name, c.isStep = true := by
    intro c hc
    obtain ⟨s, -, rfl⟩ := List.mem_map.mp hc
    rfl
  rw [moves_of_components h, List.filter_eq_self.mpr hsteps, List.map_map]
  exact congrArg (q.moves ++ ·) (List.map_id'' (fun _ => rfl) names)

/-! ## Paths made from names -/

section Names
variable {names : List String} (hn : ∀ s ∈ names, IsName s)
include hn

theorem slashFree_map_toList : SlashFree (names.map String.toList) := by
  intro q hq
  obtain ⟨s, hs, rfl⟩ := List.mem_map.mp hq
  exact (hn s hs).no_slash

theorem meaningful_map_toList :
    meaningful (names.map String.toList) = names.map String.toList := by
  rw [meaningful, List.filter_eq_self]
  intro q hq
  obtain ⟨s, hs, rfl⟩ := List.mem_map.mp hq
  have h₁ : s.toList ≠ [] := fun he => (hn s hs).ne_empty (String.toList_inj.mp he)
  have h₂ : s.toList ≠ ['.'] := fun he => (hn s hs).ne_dot (String.toList_inj.mp he)
  simp [isIdle, h₁, h₂]

theorem map_componentOf_toList :
    (names.map String.toList).map componentOf = names.map Component.name := by
  rw [List.map_map]
  refine List.map_congr_left fun s hs => ?_
  have h : s.toList ≠ ['.', '.'] := fun he => (hn s hs).ne_up (String.toList_inj.mp he)
  simp [componentOf, h]

theorem fits_plain_map_toList : Start.plain.Fits (names.map String.toList) := by
  cases names with
  | nil => exact Or.inl rfl
  | cons s names =>
    have hs := hn s List.mem_cons_self
    exact Or.inr (Or.inr ⟨_, _, rfl, fun he => hs.ne_empty (String.toList_inj.mp he),
      fun he => hs.ne_dot (String.toList_inj.mp he)⟩)

omit hn in
theorem ofNames_eq_assemble : ofNames names = assemble .plain (names.map String.toList) := rfl

/-- **A path made from proper names has them as its components.** -/
theorem components_ofNames : (ofNames names).components = names.map Component.name := by
  rw [ofNames_eq_assemble, components_assemble (fits_plain_map_toList hn)
    (slashFree_map_toList hn), meaningful_map_toList hn, map_componentOf_toList hn]
  rfl

theorem isAbsolute_ofNames : (ofNames names).isAbsolute = false := by
  rw [Bool.eq_false_iff, Ne, isAbsolute_iff_startOf, ofNames_eq_assemble,
    startOf_assemble (fits_plain_map_toList hn) (slashFree_map_toList hn)]
  exact fun h => Start.noConfusion h

theorem travel_ofNames : (ofNames names).travel = names.map Component.name := by
  rw [travel, components_ofNames hn, List.filter_eq_self]
  intro c hc
  obtain ⟨s, -, rfl⟩ := List.mem_map.mp hc
  rfl

/-- Proper names that are joined to a directory come after its components. -/
theorem components_join_ofNames (dir : Path) :
    (dir.join (ofNames names)).components = dir.components ++ names.map .name := by
  by_cases hdir : dir = empty
  · subst hdir
    have hjoin : empty.join (ofNames names) = ofNames names := by
      rw [join, isAbsolute_ofNames hn]
      rfl
    rw [hjoin, components_ofNames hn]
    rfl
  · rw [components_join hdir (isAbsolute_ofNames hn), travel_ofNames hn]

theorem isTrim_assemble_names {s : Start} (hf : s.Fits (names.map String.toList))
    (hne : names ≠ []) : (assemble s (names.map String.toList)).IsTrim := by
  have hne' : names.map String.toList ≠ [] := by simpa using hne
  refine isTrim_assemble hf (slashFree_map_toList hn) (List.getLast?_eq_some_getLast hne') ?_
  have hmem : (names.map String.toList).getLast hne' ∈ meaningful (names.map String.toList) :=
    (meaningful_map_toList hn).symm ▸ List.getLast_mem hne'
  simpa using (List.mem_filter.mp hmem).2

theorem isTrim_ofNames (hne : names ≠ []) : (ofNames names).IsTrim :=
  isTrim_assemble_names (s := .plain) hn (fits_plain_map_toList hn) hne

end Names

/-- A path that has been normalised consists of proper names. -/
theorem normalizeRelative_eq_some {p q : Path} (h : p.normalizeRelative = some q) :
    ∃ names, (∀ s ∈ names, IsName s) ∧ q = ofNames names := by
  obtain ⟨stack, hstack, rfl⟩ := Option.map_eq_some_iff.mp h
  exact ⟨stack.reverse, fun s hs =>
    isName_of_mem_components (mem_of_reduce hstack (List.mem_reverse.mp hs)), rfl⟩

/-- **A name that has been put under a directory** is some proper names joined to it. -/
theorem containedJoin_eq_some {dir target : Path} {name : String}
    (h : dir.containedJoin name = some target) :
    ∃ names, names ≠ [] ∧ (∀ s ∈ names, IsName s) ∧ target = dir.join (ofNames names) := by
  rw [containedJoin] at h
  cases hn : normalizeRelative ⟨name⟩ with
  | none => rw [hn] at h; cases h
  | some relative =>
    rw [hn] at h
    simp only at h
    split at h
    · cases h
    rename_i hne
    cases h
    obtain ⟨names, hnames, rfl⟩ := normalizeRelative_eq_some hn
    exact ⟨names, fun he => hne (by rw [he]; rfl), hnames, rfl⟩

end Path

/-! ## Locations as paths -/

namespace Location

theorem within_iff {root loc : Location} : within root loc = true ↔ root <:+ loc :=
  List.isSuffixOf_iff_suffix

@[simp] theorem within_refl (loc : Location) : within loc loc = true :=
  within_iff.mpr (List.suffix_refl _)

theorem within_cons {root loc : Location} (name : String) (h : within root loc = true) :
    within root (name :: loc) = true :=
  within_iff.mpr ((within_iff.mp h).trans (List.suffix_cons ..))

theorem within_append {root loc : Location} (names : List String) (h : within root loc = true) :
    within root (names ++ loc) = true :=
  within_iff.mpr ((within_iff.mp h).trans (List.suffix_append ..))

/-- A location lies below `root` and is not `root` itself. -/
def Inside (root loc : Location) : Prop := within root loc = true ∧ loc ≠ root

instance (root loc : Location) : Decidable (Inside root loc) :=
  inferInstanceAs (Decidable (_ ∧ _))

theorem inside_cons {root loc : Location} (name : String) (h : within root loc = true) :
    Inside root (name :: loc) := by
  refine ⟨within_cons name h, fun he => ?_⟩
  have := (within_iff.mp h).length_le
  rw [← he, List.length_cons] at this
  omega

/-- What some names of a location lead to lies inside it. -/
theorem inside_append {root : Location} {names : List String} (h : names ≠ []) :
    Inside root (names ++ root) := by
  obtain ⟨name, names, rfl⟩ := List.exists_cons_of_ne_nil h
  exact inside_cons name (within_append names (within_refl root))

theorem Inside.within_trans {root loc loc' : Location} (h : Inside root loc)
    (h' : within loc loc' = true) : Inside root loc' := by
  have hsuffix := within_iff.mp h'
  refine ⟨within_iff.mpr ((within_iff.mp h.1).trans hsuffix), fun he => h.2 ?_⟩
  rw [he] at hsuffix
  exact hsuffix.eq_of_length_le (within_iff.mp h.1).length_le

theorem path_eq_assemble (loc : Location) :
    loc.path = Path.assemble .root (loc.reverse.map String.toList) := rfl

theorem isAbsolute_path (loc : Location) : loc.path.isAbsolute = true := by
  rw [path, Path.isAbsolute, Path.chars_ofChars]
  rfl

theorem path_ne_empty (loc : Location) : loc.path ≠ Path.empty := by
  intro h
  have := congrArg Path.isAbsolute h
  rw [isAbsolute_path] at this
  cases this

/-- The components of the path of a location: the root and then its names. -/
theorem components_path {loc : Location} (hn : ∀ s ∈ loc, IsName s) :
    loc.path.components = .root :: loc.reverse.map Component.name := by
  have hn' : ∀ s ∈ loc.reverse, IsName s := fun s hs => hn s (List.mem_reverse.mp hs)
  rw [path_eq_assemble, Path.components_assemble (s := .root) trivial
    (Path.slashFree_map_toList hn'),
    Path.meaningful_map_toList hn', Path.map_componentOf_toList hn']
  rfl

theorem moves_path {loc : Location} (hn : ∀ s ∈ loc, IsName s) : loc.path.moves = loc.reverse := by
  rw [Path.moves_eq_components, components_path hn, List.filter_cons_of_neg (by decide)]
  rw [List.filter_eq_self.mpr, List.map_map]
  · exact List.map_id'' (fun _ => rfl) _
  · intro c hc
    obtain ⟨s, -, rfl⟩ := List.mem_map.mp hc
    rfl

/-- The path of a location that is not the root ends in a name. -/
theorem isTrim_path {loc : Location} (hn : ∀ s ∈ loc, IsName s) (hne : loc ≠ []) :
    loc.path.IsTrim :=
  Path.isTrim_assemble_names (s := .root) (fun s hs => hn s (List.mem_reverse.mp hs)) trivial
    (by simpa using hne)

theorem getLast?_path_ne {loc : Location} (hn : ∀ s ∈ loc, IsName s) (hne : loc ≠ []) :
    loc.path.chars.getLast? ≠ some '/' := by
  have hends := (isTrim_path hn hne).endsInSlash
  have hsteps : loc.path.steps ≠ [] := fun he => by
    have hmoves := moves_path hn
    rw [Path.moves, he] at hmoves
    exact hne (List.reverse_eq_nil_iff.mp hmoves.symm)
  simpa [Path.endsInSlash, hsteps] using hends

/-- **Names that are joined to the path of a location** lead down from it. -/
theorem join_path {base : Location} {names : List String} (hb : ∀ s ∈ base, IsName s)
    (hn : ∀ s ∈ names, IsName s) (hne : names ≠ []) :
    base.path.join (.ofNames names) = path (names.reverse ++ base) := by
  have hne' : names.map String.toList ≠ [] := by simpa using hne
  have hrelative := Path.isAbsolute_ofNames hn
  cases base with
  | nil =>
    have hroot : (path []).chars = ['/'] := Path.chars_ofChars _
    rw [List.append_nil, path.eq_1 names.reverse, List.reverse_reverse, Path.join, hrelative, hroot]
    simp [Path.ofNames]
  | cons n dir =>
    have hlast := getLast?_path_ne hb (List.cons_ne_nil n dir)
    rw [Path.join, hrelative, if_neg Bool.false_ne_true]
    split
    · rename_i hnone
      rw [List.getLast?_eq_none_iff, path, Path.chars_ofChars] at hnone
      cases hnone
    · rename_i h
      exact absurd h hlast
    · rw [path, path, Path.chars_ofChars, Path.ofNames, Path.chars_ofChars, List.reverse_append,
        List.reverse_reverse, List.map_append, Path.intercalate_append (by simp) hne']
      rfl

/-- The path of a location determines it. -/
theorem path_inj {loc loc' : Location} (hn : ∀ s ∈ loc, IsName s) (hn' : ∀ s ∈ loc', IsName s)
    (h : loc.path = loc'.path) : loc = loc' := by
  have hmoves := congrArg Path.moves h
  rw [moves_path hn, moves_path hn'] at hmoves
  exact List.reverse_inj.mp hmoves

/-- **Lexical containment of canonical paths is containment of locations.** -/
theorem startsWith_path_iff {root base : Location} {names : List String}
    (hr : ∀ s ∈ root, IsName s) (hb : ∀ s ∈ base, IsName s) (hn : ∀ s ∈ names, IsName s) :
    (base.path.join (Path.ofNames names)).startsWith root.path = true ↔
      within root (names.reverse ++ base) = true := by
  rw [Path.startsWith, Path.components_join base.path_ne_empty (Path.isAbsolute_ofNames hn),
    components_path hr, components_path hb, Path.travel_ofNames hn, within_iff,
    List.isPrefixOf_iff_prefix, List.cons_append, List.cons_prefix_cons, ← List.map_append]
  have hinj : Function.Injective Component.name := fun _ _ h => Component.name.inj h
  rw [List.prefix_map_iff_of_injective hinj, ← List.reverse_suffix, List.reverse_reverse,
    List.reverse_append,
    List.reverse_reverse]
  exact and_iff_right rfl

end Location
end Stowage
