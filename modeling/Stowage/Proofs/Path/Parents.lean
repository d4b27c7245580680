import Stowage.Files.Call
import Stowage.Proofs.Path.Names

/-!
# Paths that continue a directory

When a name has been put under a directory, the walk along the path takes the steps of
the directory first and the names of the normalised name after them.  So do the walks
along its parent, the parent of that, and so on, until the names have been used up.
`Continues` says this of a path; `Continues.of_containedJoin` starts and
`Continues.parent` goes on.

The parents of a path are made by cutting its text, so what they say is read off the
pieces between its slashes.  A parent is shorter (`length_parent?_lt`): the ancestors of a
path come to an end, and what goes from a path to its parent can be followed by induction
(`parent_induction`).
-/

namespace Stowage

namespace Path

/-! ## The steps of a path by its pieces -/

/-- The steps that pieces between slashes stand for. -/
def pieceSteps (ps : List (List Char)) : List String :=
  (ps.filter (· ≠ [])).map String.ofList

@[simp] theorem pieceSteps_append (ps qs : List (List Char)) :
    pieceSteps (ps ++ qs) = pieceSteps ps ++ pieceSteps qs := by
  simp [pieceSteps]

/-- The step that the start of a path takes. -/
def Start.steps : Start → List String
  | .here => ["."]
  | _ => []

/-- Pieces that mean nothing are no more than idle steps. -/
theorem eq_dot_of_mem_pieceSteps {ps : List (List Char)} (h : ∀ q ∈ ps, isIdle q = true) :
    ∀ n ∈ pieceSteps ps, n = "." := by
  intro n hn
  obtain ⟨q, hq, rfl⟩ := List.mem_map.mp hn
  obtain ⟨hq, hne⟩ := List.mem_filter.mp hq
  have hidle := h q hq
  have hne : q ≠ [] := by simpa using hne
  exact ofList_eq_dot.mpr (by simpa [isIdle, hne] using hidle)

theorem steps_eq_pieceSteps (p : Path) :
    p.steps = (startOf p.chars).steps ++ pieceSteps p.pieces := by
  show pieceSteps (p.chars.splitOn '/') = _
  rw [pieces]
  cases p.chars with
  | nil => rfl
  | cons c cs =>
    by_cases hroot : c = '/'
    · subst hroot
      simp [startOf, Start.chars, Start.steps, List.splitOn_cons_eq_if_modifyHead, pieceSteps]
    by_cases hdot : c = '.' ∧ (cs = [] ∨ ∃ r, cs = '/' :: r)
    · obtain ⟨rfl, rfl | ⟨r, rfl⟩⟩ := hdot
      · rfl
      · simp [startOf, Start.chars, Start.steps, List.splitOn_cons_eq_if_modifyHead, pieceSteps]
    · have hstart : startOf (c :: cs) = .plain := by
        unfold startOf
        split <;> simp_all
      rw [hstart]
      rfl

theorem steps_assemble {s : Start} {ps : List (List Char)} (hf : s.Fits ps)
    (hs : SlashFree ps) : (assemble s ps).steps = s.steps ++ pieceSteps ps := by
  rw [steps_eq_pieceSteps, startOf_assemble hf hs]
  by_cases hne : ps = []
  · subst hne
    cases s <;> rfl
  · rw [pieces_assemble hf hs hne]

/-- A path is its start and its pieces. -/
theorem chars_eq (p : Path) :
    p.chars = (startOf p.chars).chars ++ ['/'].intercalate p.pieces := by
  have hstart : (startOf p.chars).chars <+: p.chars := by
    generalize p.chars = cs
    unfold startOf
    split
    · exact ⟨_, rfl⟩
    · exact ⟨[], rfl⟩
    · exact ⟨_, rfl⟩
    · exact List.nil_prefix
  rw [pieces, List.intercalate_splitOn]
  obtain ⟨rest, hrest⟩ := hstart
  generalize (startOf p.chars).chars = lead at *
  rw [← hrest, List.drop_left]

theorem intercalate_isPrefix {ps qs : List (List Char)} (h : ps <+: qs) :
    ['/'].intercalate ps <+: ['/'].intercalate qs := by
  induction ps generalizing qs with
  | nil => exact List.nil_prefix
  | cons p ps ih =>
    obtain ⟨rest, rfl⟩ := h
    cases ps with
    | nil =>
      cases rest with
      | nil => exact List.prefix_rfl
      | cons q rest =>
        rw [List.singleton_append, List.intercalate_cons_cons]
        simp [List.intercalate]
    | cons q ps =>
      rw [List.cons_append, List.cons_append, List.intercalate_cons_cons,
        List.intercalate_cons_cons]
      have hrest := @ih (q :: ps ++ rest) (List.prefix_append _ _)
      rw [List.cons_append] at hrest
      exact (List.prefix_append_right_inj _).mpr hrest

theorem exists_trimmedPieces (ps : List (List Char)) :
    ∃ idle, ps = trimmedPieces ps ++ idle ∧ ∀ q ∈ idle, isIdle q = true := by
  refine ⟨(ps.reverse.takeWhile isIdle).reverse, ?_, fun q hq => ?_⟩
  · rw [trimmedPieces, ← List.reverse_append, List.takeWhile_append_dropWhile,
      List.reverse_reverse]
  · rw [List.mem_reverse] at hq
    exact (List.all_eq_true.mp List.all_takeWhile) q hq

/-- **The parent of a path** that takes a step is made of its first pieces.  Of the others, one
means something. -/
theorem exists_pieces_of_parent? {p q : Path} (h : p.parent? = some q) (hp : p.moves ≠ []) :
    ∃ ps idle z zs, p.pieces = ps ++ idle ++ z :: zs ∧ (∀ x ∈ idle, isIdle x = true) ∧
      isIdle z = false ∧ (∀ x ∈ zs, isIdle x = true) ∧ q = assemble (startOf p.chars) ps := by
  rw [parent?] at h
  obtain ⟨zs, hzs, hidle⟩ := exists_trimmedPieces p.pieces
  cases ht : trimmedPieces p.pieces with
  | nil =>
    rw [moves_eq_meaningful, ← meaningful_trimmedPieces, ht] at hp
    exact absurd rfl hp
  | cons z' zs' =>
    rw [ht] at h hzs
    simp only [Option.some.injEq] at h
    have hne : z' :: zs' ≠ [] := List.cons_ne_nil _ _
    have hlast : isIdle ((z' :: zs').getLast hne) = false := by
      have := @isIdle_getLast_trimmedPieces p.pieces (by rw [ht]; exact hne)
      simpa only [ht] using this
    obtain ⟨idle, hinit, hidle'⟩ := exists_trimmedPieces (z' :: zs').dropLast
    refine ⟨trimmedPieces (z' :: zs').dropLast, idle, (z' :: zs').getLast hne, zs, ?_, hidle',
      hlast, hidle, h.symm⟩
    calc p.pieces = (z' :: zs').dropLast ++ [(z' :: zs').getLast hne] ++ zs := by
          rw [List.dropLast_concat_getLast, hzs]
      _ = _ := by
          rw [List.append_assoc, List.singleton_append]
          exact congrArg (· ++ _) hinit

section Parent
variable {p q : Path} (h : p.parent? = some q) (hp : p.moves ≠ [])
include h hp

/-- The text of a parent is the start of the text. -/
theorem isPrefix_parent? : q.chars <+: p.chars := by
  obtain ⟨ps, idle, z, zs, hpieces, -, -, -, rfl⟩ := exists_pieces_of_parent? h hp
  have hpre : ps <+: p.pieces := by
    rw [hpieces, List.append_assoc]
    exact List.prefix_append _ _
  have hchars := (List.prefix_append_right_inj (startOf p.chars).chars).mpr
    (intercalate_isPrefix hpre)
  rw [← chars_eq p] at hchars
  rwa [assemble, chars_ofChars]

/-- **The steps of a parent** are those before the last, but for idle ones. -/
theorem steps_parent? : ∃ idle n zs, p.steps = q.steps ++ idle ++ n :: zs ∧
    (∀ m ∈ idle, m = ".") ∧ n ≠ "." ∧ ∀ m ∈ zs, m = "." := by
  obtain ⟨ps, idle, z, zs, hpieces, hidle, hz, hzs, rfl⟩ := exists_pieces_of_parent? h hp
  have hpre : ps <+: p.pieces := by
    rw [hpieces, List.append_assoc]
    exact List.prefix_append _ _
  have hz' : z ≠ [] := by rintro rfl; cases hz
  refine ⟨pieceSteps idle, String.ofList z, pieceSteps zs, ?_, eq_dot_of_mem_pieceSteps hidle, ?_,
    eq_dot_of_mem_pieceSteps hzs⟩
  · rw [steps_assemble ((fits_pieces p).of_isPrefix hpre) ((slashFree_pieces p).of_isPrefix hpre),
      steps_eq_pieceSteps, hpieces, pieceSteps_append, pieceSteps_append]
    simp [pieceSteps, hz']
  · rw [Ne, ofList_eq_dot]
    rintro rfl
    cases hz

end Parent

/-- The steps of a trim path end in the name that its parent lacks. -/
theorem IsTrim.steps_parent? {p q : Path} {n : String} (hp : p.IsTrim) (h : p.parent? = some q)
    (hmoves : p.moves = q.moves ++ [n]) :
    ∃ idle, p.steps = q.steps ++ idle ++ [n] ∧ ∀ m ∈ idle, m = "." := by
  obtain ⟨idle, m, zs, hsteps, hidle, hm, hzs⟩ := Path.steps_parent? h (by simp [hmoves])
  obtain ⟨names, last, hends, hlast⟩ := hp.steps
  obtain rfl : zs = [] := by
    rcases List.eq_nil_or_concat zs with he | ⟨init, z, rfl⟩
    · exact he
    · rw [hsteps, List.concat_eq_append, ← List.cons_append, ← List.append_assoc] at hends
      have hz := (List.cons.inj (List.append_inj' hends rfl).2).1
      exact absurd (hz.symm.trans (hzs z (by simp))) hlast
  have hnone : idle.filter (· ≠ ".") = [] :=
    List.filter_eq_nil_iff.mpr fun x hx => by simpa using hidle x hx
  have hname : m = n := by
    rw [moves, hsteps, List.filter_append, List.filter_append, hnone, List.append_nil,
      List.filter_cons_of_pos (by simpa using hm)] at hmoves
    exact (List.cons.inj (List.append_cancel_left hmoves)).1
  exact ⟨idle, hname ▸ hsteps, hidle⟩

/-! ## Ancestors -/

/-- What is cut off a path is a step, unless nothing is left of it. -/
theorem moves_parent? {p q : Path} (h : p.parent? = some q) (hq : q ≠ empty) :
    ∃ c, p.components = q.components ++ [c] ∧ c.isStep = true ∧ p.moves = q.moves ++ [c.text] := by
  obtain ⟨c, -, hcomps, hstep⟩ := components_parent? h
  have hstep := hstep.resolve_right hq
  have hmoves := moves_of_components hcomps
  rw [List.filter_cons_of_pos hstep, List.filter_nil, List.map_singleton] at hmoves
  exact ⟨c, hcomps, hstep, hmoves⟩

theorem chars_parent?_isPrefix {p q : Path} (h : p.parent? = some q) : q.chars <+: p.chars := by
  by_cases hq : q = empty
  · rw [hq]
    exact List.nil_prefix
  · obtain ⟨c, -, -, hmoves⟩ := moves_parent? h hq
    exact isPrefix_parent? h (by simp [hmoves])

/-- **A parent is shorter.** -/
theorem length_parent?_lt {p q : Path} (h : p.parent? = some q) :
    q.chars.length < p.chars.length := by
  have hpre := chars_parent?_isPrefix h
  refine Nat.lt_of_le_of_ne hpre.length_le fun he => ?_
  have hsame : q = p := by
    rw [← ofChars_chars q, ← ofChars_chars p, hpre.eq_of_length he]
  obtain ⟨c, -, hcomps, -⟩ := components_parent? h
  rw [hsame] at hcomps
  simpa using congrArg List.length hcomps

/-- What holds of a path if it holds of its parent holds of every path. -/
theorem parent_induction {motive : Path → Prop}
    (step : ∀ p, (∀ q, p.parent? = some q → motive q) → motive p) (p : Path) : motive p := by
  generalize hn : p.chars.length = n
  induction n using Nat.strongRecOn generalizing p with
  | ind n ih => exact step p fun q hq => ih _ (hn ▸ length_parent?_lt hq) q rfl

/-- How far ancestors are looked for does not matter, if it is far enough. -/
theorem ancestorsUpTo_eq {p : Path} {fuel fuel' : Nat} (h : p.chars.length < fuel)
    (h' : p.chars.length < fuel') : ancestorsUpTo fuel p = ancestorsUpTo fuel' p := by
  induction p using parent_induction generalizing fuel fuel' with
  | step p ih =>
    obtain ⟨fuel, rfl⟩ : ∃ k, fuel = k + 1 := ⟨fuel - 1, by omega⟩
    obtain ⟨fuel', rfl⟩ : ∃ k, fuel' = k + 1 := ⟨fuel' - 1, by omega⟩
    rw [ancestorsUpTo, ancestorsUpTo]
    cases hq : p.parent? with
    | none => rfl
    | some q =>
      have hlt := length_parent?_lt hq
      exact congrArg (p :: ·) (ih q hq (by omega) (by omega))

/-- **The ancestors of a path** are the path itself and those of its parent. -/
theorem ancestors_of_parent? {p q : Path} (h : p.parent? = some q) :
    p.ancestors = p :: q.ancestors := by
  rw [ancestors, ancestorsUpTo, h]
  exact congrArg (p :: ·) (ancestorsUpTo_eq (length_parent?_lt h) (Nat.lt_succ_self _))

theorem ancestors_of_parent?_eq_none {p : Path} (h : p.parent? = none) : p.ancestors = [p] := by
  rw [ancestors, ancestorsUpTo, h]

theorem mem_ancestors {p q : Path} :
    q ∈ p.ancestors ↔ q = p ∨ ∃ r, p.parent? = some r ∧ q ∈ r.ancestors := by
  cases h : p.parent? with
  | none => simp [ancestors_of_parent?_eq_none h]
  | some r => simp [ancestors_of_parent? h]

theorem self_mem_ancestors (p : Path) : p ∈ p.ancestors := mem_ancestors.mpr (Or.inl rfl)

/-! ## Joining -/

/-- **A relative path that is joined to another adds its steps.** -/
theorem steps_join {p q : Path} (hp : p ≠ empty) (hq : q.isAbsolute = false) :
    (p.join q).steps = p.steps ++ q.steps := by
  have hcs : p.chars ≠ [] := fun he => hp (by rw [← ofChars_chars p, he]; rfl)
  obtain ⟨cs, c, hsplit⟩ : ∃ cs c, p.chars = cs ++ [c] :=
    ⟨_, _, (List.dropLast_concat_getLast hcs).symm⟩
  have hlast : p.chars.getLast? = some c := by rw [hsplit]; simp
  rw [join, hq, hlast, steps_eq, steps_eq, steps_eq]
  by_cases hc : c = '/'
  · subst hc
    simp [hsplit, List.splitOn_append_cons_self]
  · simp [List.splitOn_append_cons_self]

theorem steps_ofNames {names : List String} (hn : ∀ s ∈ names, IsName s) :
    (ofNames names).steps = names := by
  have hkeep : pieceSteps (names.map String.toList) = names := by
    rw [pieceSteps, List.filter_eq_self.mpr, List.map_map]
    · exact List.map_id'' (fun s => String.ofList_toList) _
    · intro q hq
      obtain ⟨s, hs, rfl⟩ := List.mem_map.mp hq
      simpa using (hn s hs).ne_empty
  rw [ofNames_eq_assemble, steps_assemble (fits_plain_map_toList hn) (slashFree_map_toList hn),
    hkeep]
  rfl

/-! ## Names that are accepted -/

/-- The names that a name stands for when it is put under a directory, innermost first: those
of the normalised name.  Nothing if it is refused. -/
def normalNames? (name : String) : Option (List String) :=
  (reduce (components ⟨name⟩)).filter (· ≠ [])

theorem normalNames?_eq_some {name : String} {ns : List String} :
    normalNames? name = some ns ↔ reduce (components ⟨name⟩) = some ns ∧ ns ≠ [] := by
  simp [normalNames?, Option.filter_eq_some_iff]

theorem isName_of_normalNames? {name : String} {ns : List String}
    (h : normalNames? name = some ns) : ∀ n ∈ ns, IsName n := fun _ hn =>
  isName_of_mem_components (mem_of_reduce (normalNames?_eq_some.mp h).1 hn)

/-- **A name is put under a directory** by joining the names that it stands for. -/
theorem containedJoin_eq (dir : Path) (name : String) : dir.containedJoin name =
    (normalNames? name).map fun ns => dir.join (ofNames ns.reverse) := by
  rw [containedJoin, normalizeRelative]
  cases hns : reduce (components ⟨name⟩) with
  | none => simp [normalNames?, hns]
  | some ns =>
    have hnames : ∀ s ∈ ns.reverse, IsName s := fun s hs =>
      isName_of_mem_components (mem_of_reduce hns (List.mem_reverse.mp hs))
    have hempty : (ofNames ns.reverse).text = "" ↔ ns = [] := by
      constructor
      · intro he
        have hsteps := steps_ofNames hnames
        rw [show ofNames ns.reverse = empty from congrArg Path.mk he] at hsteps
        exact List.reverse_eq_nil_iff.mp hsteps.symm
      · rintro rfl
        rfl
    simp only [Option.map_some, hempty, normalNames?, hns, Option.filter_some]
    by_cases hnil : ns = [] <;> simp [hnil]

/-! ### Their characters -/

theorem mem_intercalate {c d : Char} {ps : List (List Char)} :
    c ∈ [d].intercalate ps → c = d ∨ ∃ q ∈ ps, c ∈ q := by
  intro h
  induction ps with
  | nil => cases h
  | cons p ps ih =>
    cases ps with
    | nil =>
      rw [List.intercalate_singleton] at h
      exact .inr ⟨p, by simp, h⟩
    | cons q ps =>
      rw [List.intercalate_cons_cons, List.mem_append, List.mem_append, List.mem_singleton] at h
      rcases h with (h | h) | h
      · exact .inr ⟨p, by simp, h⟩
      · exact .inl h
      · exact (ih h).imp_right fun ⟨x, hx, hc⟩ => ⟨x, List.mem_cons_of_mem _ hx, hc⟩

theorem mem_intercalate_of_mem {c d : Char} {ps : List (List Char)} {q : List Char}
    (hq : q ∈ ps) (hc : c ∈ q) : c ∈ [d].intercalate ps := by
  induction ps with
  | nil => cases hq
  | cons p ps ih =>
    cases ps with
    | nil =>
      obtain rfl := List.mem_singleton.mp hq
      rwa [List.intercalate_singleton]
    | cons p' ps =>
      rw [List.intercalate_cons_cons, List.mem_append, List.mem_append]
      rcases List.mem_cons.mp hq with rfl | hq
      · exact .inl (.inl hc)
      · exact .inr (ih hq)

/-- A component has no characters but those of its path. -/
theorem mem_chars_of_mem_components {p : Path} {x : Component} (hx : x ∈ p.components) {c : Char}
    (hc : c ∈ x.text.toList) : c ∈ p.chars := by
  rw [chars_eq, List.mem_append]
  rw [components_eq, List.mem_append] at hx
  rcases hx with hx | hx
  · generalize startOf p.chars = start at hx
    cases start with
    | plain => cases hx
    | root | here =>
      cases List.mem_singleton.mp hx
      exact .inl hc
  · obtain ⟨q, hq, rfl⟩ := List.mem_map.mp hx
    rw [text_componentOf, String.toList_ofList] at hc
    exact .inr (mem_intercalate_of_mem (List.mem_filter.mp hq).1 hc)

/-- Only slashes and dots are left out when a path is read as its components. -/
theorem exists_component_of_mem {p : Path} {c : Char} (h : c ∈ p.chars) (hslash : c ≠ '/')
    (hdot : c ≠ '.') : ∃ x ∈ p.components, c ∈ x.text.toList := by
  rw [chars_eq, List.mem_append] at h
  rcases h with h | h
  · generalize startOf p.chars = start at h
    cases start <;> simp [Start.chars, hslash, hdot] at h
  · rcases mem_intercalate h with hc | ⟨q, hq, hc⟩
    · exact absurd hc hslash
    · have hidle : isIdle q = false := by
        refine Bool.eq_false_iff.mpr fun hidle => ?_
        rcases (by simpa [isIdle] using hidle : q = [] ∨ q = ['.']) with rfl | rfl
        · cases hc
        · exact hdot (List.mem_singleton.mp hc)
      refine ⟨componentOf q, ?_, ?_⟩
      · rw [components_eq]
        exact List.mem_append_right _
          (List.mem_map_of_mem (List.mem_filter.mpr ⟨hq, by simp [hidle]⟩))
      · rwa [text_componentOf, String.toList_ofList]

/-- The names that a name stands for have no other characters. -/
theorem mem_of_normalNames? {name n : String} {ns : List String}
    (h : normalNames? name = some ns) (hn : n ∈ ns) {c : Char} (hc : c ∈ n.toList) :
    c ∈ name.toList := by
  have hcomp := mem_of_reduce (normalNames?_eq_some.mp h).1 hn
  exact mem_chars_of_mem_components hcomp hc

/-- A path that has been put under another has no characters but theirs and slashes. -/
theorem mem_containedJoin {dir x : Path} {name : String} (h : dir.containedJoin name = some x)
    {c : Char} (hc : c ∈ x.chars) : c = '/' ∨ c ∈ dir.chars ∨ c ∈ name.toList := by
  rw [containedJoin_eq] at h
  obtain ⟨ns, hns, rfl⟩ := Option.map_eq_some_iff.mp h
  have hrelative {c : Char} (hc : c ∈ (ofNames ns.reverse).chars) :
      c = '/' ∨ c ∈ name.toList := by
    rw [ofNames, chars_ofChars] at hc
    rcases mem_intercalate hc with hc | ⟨q, hq, hc⟩
    · exact .inl hc
    · obtain ⟨n, hn, rfl⟩ := List.mem_map.mp hq
      exact .inr (mem_of_normalNames? hns (List.mem_reverse.mp hn) hc)
  rw [join] at hc
  split at hc
  · exact (hrelative hc).imp_right .inr
  split at hc
  · exact (hrelative hc).imp_right .inr
  all_goals
    rw [chars_ofChars, List.mem_append] at hc
    rcases hc with hc | hc
    · exact .inr (.inl hc)
  · exact (hrelative hc).imp_right .inr
  · rcases List.mem_cons.mp hc with hc | hc
    · exact .inl hc
    · exact (hrelative hc).imp_right .inr

end Path

/-! ## What a call accepts -/

namespace FileSystem

theorem checkPath_eq_ok {p : Path} : checkPath p = .ok () ↔ '\x00' ∉ p.chars ∧ p ≠ .empty := by
  have hempty : p = .empty ↔ p.text = "" := ⟨congrArg Path.text, congrArg Path.mk⟩
  rw [checkPath, Ne, hempty, ← List.contains_iff_mem]
  cases p.chars.contains '\x00' with
  | true => simp
  | false => by_cases htext : p.text = "" <;> simp [htext]

theorem checkCallPath_eq_ok {p : Path} : checkCallPath p = .ok () ↔
    '\x00' ∉ p.chars ∧ p ≠ .empty ∧ p.text.utf8ByteSize ≤ maxPathBytes := by
  rw [← and_assoc, ← checkPath_eq_ok, checkCallPath]
  cases checkPath p with
  | error e => simp [Bind.bind, Except.bind]
  | ok u =>
    by_cases hlong : maxPathBytes < p.text.utf8ByteSize
    · simp [hlong, Bind.bind, Except.bind]
    · simp [hlong, Nat.le_of_not_lt hlong, Bind.bind, Except.bind, Pure.pure, Except.pure]

theorem checkPath_of_isPrefix {p q : Path} (h : checkPath p = .ok ())
    (hpre : q.chars <+: p.chars) (hq : q ≠ .empty) : checkPath q = .ok () :=
  checkPath_eq_ok.mpr ⟨fun hmem => (checkPath_eq_ok.mp h).1 (hpre.subset hmem), hq⟩

/-- What accepts a path accepts a first part of it. -/
theorem checkCallPath_of_isPrefix {p q : Path} (h : checkCallPath p = .ok ())
    (hpre : q.chars <+: p.chars) (hq : q ≠ .empty) : checkCallPath q = .ok () := by
  obtain ⟨hzero, -, hlong⟩ := checkCallPath_eq_ok.mp h
  refine checkCallPath_eq_ok.mpr ⟨fun hmem => hzero (hpre.subset hmem), hq, ?_⟩
  obtain ⟨rest, hrest⟩ := hpre
  have htext : p.text = q.text ++ String.ofList rest := by
    rw [← String.toList_inj, String.toList_append, String.toList_ofList]
    exact hrest.symm
  rw [htext, String.utf8ByteSize_append] at hlong
  omega

end FileSystem

namespace Path

/-! ## Continuing a directory -/

/-- **A path continues a directory by some names**, given innermost first: the walk along it
takes the steps of the directory, but for idle ones at their end, and then the names. -/
structure Continues (dir p : Path) (ns : List String) : Prop where
  components : p.components = dir.components ++ ns.reverse.map .name
  isAbsolute : p.isAbsolute = dir.isAbsolute
  names : ∀ n ∈ ns, IsName n
  short : ∀ n ∈ ns, n.utf8ByteSize ≤ FileSystem.maxNameBytes
  steps : ∃ stem idle, dir.steps = stem ++ idle ∧ (∀ m ∈ idle, m = ".") ∧
    p.steps = stem ++ ns.reverse
  trim : ns ≠ [] → p.IsTrim
  check : FileSystem.checkCallPath p = .ok ()

/-- The components of a name that has been put under a directory. -/
theorem components_of_containedJoin {dir x : Path} {name : String} (hdir : dir ≠ empty)
    {ns : List String} (hns : normalNames? name = some ns)
    (h : dir.containedJoin name = some x) :
    x.components = dir.components ++ ns.reverse.map .name := by
  rw [containedJoin_eq, hns] at h
  obtain rfl := Option.some.inj h
  have hnames : ∀ s ∈ ns.reverse, IsName s := fun s hs =>
    isName_of_normalNames? hns s (List.mem_reverse.mp hs)
  rw [components_join hdir (isAbsolute_ofNames hnames), travel_ofNames hnames]

/-- **A name that has been put under a directory** continues it. -/
theorem continues_of_containedJoin {dir x : Path} {name : String} (hdir : dir ≠ empty)
    {ns : List String} (hns : normalNames? name = some ns)
    (hshort : ∀ n ∈ ns, n.utf8ByteSize ≤ FileSystem.maxNameBytes)
    (h : dir.containedJoin name = some x) (hx : FileSystem.checkCallPath x = .ok ()) :
    Continues dir x ns := by
  have hcomponents := components_of_containedJoin hdir hns h
  rw [containedJoin_eq, hns] at h
  obtain rfl := Option.some.inj h
  have hnames : ∀ s ∈ ns.reverse, IsName s := fun s hs =>
    isName_of_normalNames? hns s (List.mem_reverse.mp hs)
  have habs := isAbsolute_ofNames hnames
  exact
    { components := hcomponents
      isAbsolute := isAbsolute_join hdir habs
      names := isName_of_normalNames? hns
      short := hshort
      steps := ⟨dir.steps, [], (List.append_nil _).symm, nofun, by
        rw [steps_join hdir habs, steps_ofNames hnames]⟩
      trim := fun hne => (isTrim_ofNames hnames (by simpa using hne)).join habs
      check := hx }

theorem Continues.moves {dir p : Path} {ns : List String} (h : Continues dir p ns) :
    p.moves = dir.moves ++ ns.reverse := moves_of_names h.components

/-- **The parent of a path that continues a directory** continues it as well, by one name
less. -/
theorem Continues.parent {dir p : Path} {n : String} {ns : List String} (hdir : dir ≠ empty)
    (h : Continues dir p (n :: ns)) : ∃ q, p.parent? = some q ∧
      p.lastComponent? = some (.name n) ∧ q.chars.length < p.chars.length ∧
      Continues dir q ns := by
  have hmoves : p.moves ≠ [] := by
    rw [h.moves]
    simp
  cases hq : p.parent? with
  | none => exact absurd (moves_of_parent?_eq_none hq) hmoves
  | some q =>
    obtain ⟨c, hlast, hcomps, -⟩ := components_parent? hq
    have hcomps' := h.components
    rw [List.reverse_cons, List.map_append, ← List.append_assoc] at hcomps'
    obtain ⟨hqcomps, hc⟩ := List.append_inj' (hcomps.symm.trans hcomps') rfl
    obtain rfl : c = .name n := by simpa using hc
    have hpre := chars_parent?_isPrefix hq
    have hne : q ≠ empty := by
      rintro rfl
      have hnil := hqcomps.symm
      rw [show empty.components = [] from rfl, List.append_eq_nil_iff] at hnil
      exact components_ne_nil hdir hnil.1
    refine ⟨q, rfl, hlast, length_parent?_lt hq, ?_⟩
    have hnames : ∀ m ∈ ns, IsName m := fun m hm => h.names m (List.mem_cons_of_mem _ hm)
    refine ⟨hqcomps, (isAbsolute_parent? hq).trans h.isAbsolute, hnames,
      fun m hm => h.short m (List.mem_cons_of_mem _ hm), ?_, fun hns => ?_,
      FileSystem.checkCallPath_of_isPrefix h.check hpre hne⟩
    · obtain ⟨stem, idle, hdir, hidle, hsteps⟩ := h.steps
      have hcut : p.moves = q.moves ++ [n] := by
        rw [h.moves, moves_of_names hqcomps, List.reverse_cons, List.append_assoc]
      obtain ⟨idle', hsteps', hidle'⟩ := (h.trim (List.cons_ne_nil _ _)).steps_parent? hq hcut
      have hends := hsteps.symm.trans hsteps'
      rw [List.reverse_cons, ← List.append_assoc] at hends
      obtain ⟨hinit, -⟩ := List.append_inj' hends rfl
      rcases ns with _ | ⟨k, ks⟩
      · refine ⟨q.steps, idle' ++ idle, ?_, fun m hm => ?_, (List.append_nil _).symm⟩
        · rw [hdir, ← List.append_assoc, ← hinit]
          simp
        · exact (List.mem_append.mp hm).elim (hidle' m) (hidle m)
      · refine ⟨stem, idle, hdir, hidle, ?_⟩
        rcases List.eq_nil_or_concat idle' with rfl | ⟨init, z, rfl⟩
        · rw [hinit, List.append_nil]
        · have hz := hidle' z (by simp)
          rw [List.reverse_cons, ← List.append_assoc, List.concat_eq_append,
            ← List.append_assoc] at hinit
          have hzk := (List.append_inj' hinit rfl).2
          have hk := (hnames k List.mem_cons_self).ne_dot
          simp [hz, hk] at hzk
    · refine isTrim_parent? hq ?_
      rw [moves_of_names hqcomps]
      simp [hns]

/-- A path is longer than the names by which it continues a directory are many. -/
theorem Continues.length_le {dir p : Path} {ns : List String} (hdir : dir ≠ empty)
    (h : Continues dir p ns) : ns.length ≤ p.chars.length := by
  induction ns generalizing p with
  | nil => exact Nat.zero_le _
  | cons n ns ih =>
    obtain ⟨q, -, -, hlt, hq⟩ := h.parent hdir
    have hle := ih hq
    rw [List.length_cons]
    omega

end Path
end Stowage
