import Stowage.Path.Contained
import Stowage.Files.Walk

/-!
# What a path means, read off its text

A path is a text, and every operation on it cuts or joins texts.  Statements about
paths are about lists: the components of a path, and the names that a walk along
it takes.  This module goes from the one to the other.

The text of a path is its start followed by pieces with slashes between them.
`assemble` puts a text together in this way, and as long as the pieces fit the
start (`Start.Fits`) nothing is lost: start and pieces can be read back
(`startOf_assemble`, `pieces_assemble`).  From this follow the three facts that
later modules use:

* the parent of a path has all its components but the last (`components_parent?`);
* a relative path that is joined to another adds its components
  (`components_join`);
* the names that a walk takes, but for `.`, are the components as texts
  (`moves_eq_components`).
-/

namespace Stowage

/-- Whether a walk takes a component: the start of a path is no step of it. -/
def Component.isStep : Component → Bool
  | up => true
  | name _ => true
  | _ => false

namespace Path

/-! ## Pieces between slashes -/

/-- The pieces that mean something. -/
def meaningful (ps : List (List Char)) : List (List Char) :=
  ps.filter (!isIdle ·)

/-- Whether no piece holds a slash. -/
def SlashFree (ps : List (List Char)) : Prop := ∀ q ∈ ps, '/' ∉ q

@[simp] theorem chars_ofChars (cs : List Char) : (ofChars cs).chars = cs :=
  String.toList_ofList

@[simp] theorem ofChars_chars (p : Path) : ofChars p.chars = p := by
  cases p
  simp [ofChars, chars]

theorem isStep_componentOf (q : List Char) : (componentOf q).isStep = true := by
  unfold componentOf
  split <;> rfl

theorem not_mem_of_mem_splitOn {sep : Char} {cs q : List Char} (h : q ∈ cs.splitOn sep) :
    sep ∉ q := by
  induction cs generalizing q with
  | nil =>
    rw [List.splitOn_nil, List.mem_singleton] at h
    subst h
    exact List.not_mem_nil
  | cons c cs ih =>
    rw [List.splitOn_cons_eq_if_modifyHead] at h
    by_cases hc : c = sep
    · rw [if_pos (by simpa using hc)] at h
      rcases List.mem_cons.mp h with rfl | h
      · exact List.not_mem_nil
      · exact ih h
    · rw [if_neg (by simpa using hc)] at h
      obtain ⟨q₀, rest, hq⟩ := List.exists_cons_of_ne_nil (List.splitOn_ne_nil sep cs)
      rw [hq, List.modifyHead_cons] at h
      rcases List.mem_cons.mp h with rfl | h
      · have := ih (hq ▸ List.mem_cons_self)
        simpa [Ne.symm hc] using this
      · exact ih (hq ▸ List.mem_cons_of_mem _ h)

theorem intercalate_append {α : Type} {d : α} {ps qs : List (List α)} (hp : ps ≠ [])
    (hq : qs ≠ []) : [d].intercalate (ps ++ qs) =
      [d].intercalate ps ++ d :: [d].intercalate qs := by
  induction ps with
  | nil => exact absurd rfl hp
  | cons p ps ih =>
    cases ps with
    | nil =>
      obtain ⟨q, qs, rfl⟩ := List.exists_cons_of_ne_nil hq
      simp [List.intercalate]
    | cons p' ps =>
      rw [List.cons_append, List.cons_append, List.intercalate_cons_cons, ← List.cons_append,
        ih (List.cons_ne_nil p' ps), List.intercalate_cons_cons, List.append_assoc,
        List.append_assoc, List.append_assoc]

theorem slashFree_pieces (p : Path) : SlashFree p.pieces :=
  fun _ h => not_mem_of_mem_splitOn h

theorem SlashFree.of_isPrefix {ps qs : List (List Char)} (h : SlashFree qs) (hp : ps <+: qs) :
    SlashFree ps :=
  fun q hq => h q (hp.subset hq)

/-! ### Trailing pieces that mean nothing -/

theorem trimmedPieces_isPrefix (ps : List (List Char)) : trimmedPieces ps <+: ps := by
  have h := List.reverse_prefix.mpr (List.dropWhile_suffix isIdle (l := ps.reverse))
  rwa [List.reverse_reverse] at h

theorem meaningful_trimmedPieces (ps : List (List Char)) :
    meaningful (trimmedPieces ps) = meaningful ps := by
  have hsplit : ps = trimmedPieces ps ++ (ps.reverse.takeWhile isIdle).reverse := by
    rw [trimmedPieces, ← List.reverse_append, List.takeWhile_append_dropWhile,
      List.reverse_reverse]
  have hidle : meaningful (ps.reverse.takeWhile isIdle).reverse = [] := by
    rw [meaningful, List.filter_eq_nil_iff]
    intro q hq
    rw [List.mem_reverse] at hq
    simpa using (List.all_eq_true.mp List.all_takeWhile) q hq
  calc meaningful (trimmedPieces ps)
      = meaningful (trimmedPieces ps) ++ meaningful (ps.reverse.takeWhile isIdle).reverse := by
        rw [hidle, List.append_nil]
    _ = meaningful (trimmedPieces ps ++ (ps.reverse.takeWhile isIdle).reverse) :=
        (List.filter_append ..).symm
    _ = meaningful ps := by rw [← hsplit]

/-- The last of the trimmed pieces means something. -/
theorem isIdle_getLast_trimmedPieces {ps : List (List Char)} (h : trimmedPieces ps ≠ []) :
    isIdle ((trimmedPieces ps).getLast h) = false := by
  have hne : ps.reverse.dropWhile isIdle ≠ [] := fun he => h (by rw [trimmedPieces, he]; rfl)
  have := List.head_dropWhile_not isIdle (l := ps.reverse) hne
  simpa [trimmedPieces, List.getLast_reverse] using this

/-! ## Start and pieces of an assembled path -/

/-- Whether pieces can follow a start: read together, they begin with that start and no
other. -/
def Start.Fits : Start → List (List Char) → Prop
  | .root, _ => True
  | .here, ps => ps = [] ∨ ∃ rest, ps = [] :: rest
  | .plain, ps => ps = [] ∨ ps = [[]] ∨ ∃ q rest, ps = q :: rest ∧ q ≠ [] ∧ q ≠ ['.']

theorem Start.Fits.of_isPrefix {s : Start} {ps qs : List (List Char)} (h : s.Fits qs)
    (hp : ps <+: qs) : s.Fits ps := by
  cases ps with
  | nil => cases s <;> simp [Fits]
  | cons q ps =>
    obtain ⟨rest, rfl⟩ := hp
    cases s with
    | root => trivial
    | here =>
      rcases h with h | ⟨rest', h⟩
      · cases h
      · exact Or.inr ⟨ps, by rw [List.cons_append] at h; rw [(List.cons.inj h).1]⟩
    | plain =>
      rcases h with h | h | ⟨q', rest', h, hq⟩
      · cases h
      · rw [List.cons_append, List.cons.injEq, List.append_eq_nil_iff] at h
        exact Or.inr (Or.inl (by rw [h.1, h.2.1]))
      · rw [List.cons_append, List.cons.injEq] at h
        exact Or.inr (Or.inr ⟨q, ps, rfl, h.1 ▸ hq⟩)

theorem fits_pieces (p : Path) : (startOf p.chars).Fits p.pieces := by
  unfold pieces
  generalize p.chars = cs
  match cs with
  | [] => simp [startOf, Start.chars, Start.Fits]
  | ['.'] => simp [startOf, Start.chars, Start.Fits]
  | '.' :: '/' :: cs =>
    exact Or.inr ⟨cs.splitOn '/', by simp [startOf, Start.chars,
      List.splitOn_cons_eq_if_modifyHead]⟩
  | c :: cs =>
    by_cases hroot : c = '/'
    · subst hroot; trivial
    by_cases hdot : c = '.' ∧ (cs = [] ∨ ∃ r, cs = '/' :: r)
    · obtain ⟨rfl, rfl | ⟨r, rfl⟩⟩ := hdot
      · simp [startOf, Start.chars, Start.Fits]
      · exact Or.inr ⟨r.splitOn '/', by
          simp [startOf, Start.chars, List.splitOn_cons_eq_if_modifyHead]⟩
    have hstart : startOf (c :: cs) = .plain := by
      unfold startOf
      split <;> simp_all
    obtain ⟨q, rest, hq⟩ := List.exists_cons_of_ne_nil (List.splitOn_ne_nil '/' cs)
    have hpieces : (c :: cs).splitOn '/' = (c :: q) :: rest := by
      rw [List.splitOn_cons_eq_if_modifyHead, if_neg (by simpa using hroot), hq,
        List.modifyHead_cons]
    rw [hstart]
    refine Or.inr (Or.inr ⟨c :: q, rest, by simpa [Start.chars] using hpieces, by simp, ?_⟩)
    intro he
    obtain ⟨rfl, rfl⟩ := List.cons.inj he
    refine hdot ⟨rfl, ?_⟩
    -- the first piece is a single dot, so a slash or nothing follows it
    cases cs with
    | nil => exact Or.inl rfl
    | cons d ds =>
      refine Or.inr ⟨ds, ?_⟩
      rw [List.splitOn_cons_eq_if_modifyHead] at hq
      split at hq
      · rename_i hd
        rw [beq_iff_eq.mp hd]
      · obtain ⟨q', rest', hq'⟩ := List.exists_cons_of_ne_nil (List.splitOn_ne_nil '/' ds)
        rw [hq', List.modifyHead_cons] at hq
        cases hq

theorem startOf_assemble {s : Start} {ps : List (List Char)} (hf : s.Fits ps)
    (hs : SlashFree ps) : startOf (assemble s ps).chars = s := by
  rw [assemble, chars_ofChars]
  cases s with
  | root => rfl
  | here =>
    rcases hf with rfl | ⟨rest, rfl⟩
    · rfl
    · cases rest with
      | nil => rfl
      | cons q rest => simp [Start.chars, startOf]
  | plain =>
    rcases hf with rfl | rfl | ⟨q, rest, rfl, hq, hdot⟩
    · rfl
    · rfl
    · cases q with
      | nil => exact absurd rfl hq
      | cons c cs =>
        have hc : c ≠ '/' := fun he => hs (c :: cs) List.mem_cons_self (he ▸ List.mem_cons_self)
        have hcs : '/' ∉ cs :=
          fun he => hs (c :: cs) List.mem_cons_self (List.mem_cons_of_mem _ he)
        cases cs with
        | nil =>
          have hc' : c ≠ '.' := fun he => hdot (by rw [he])
          cases rest <;> (unfold startOf; split <;> simp_all [Start.chars])
        | cons d ds =>
          have hd : d ≠ '/' := fun he => hcs (he ▸ List.mem_cons_self)
          cases rest <;> (unfold startOf; split <;> simp_all [Start.chars])

theorem pieces_assemble {s : Start} {ps : List (List Char)} (hf : s.Fits ps)
    (hs : SlashFree ps) (hne : ps ≠ []) : (assemble s ps).pieces = ps := by
  rw [pieces, startOf_assemble hf hs, assemble, chars_ofChars, List.drop_left,
    List.splitOn_intercalate '/' hs hne]

theorem components_assemble {s : Start} {ps : List (List Char)} (hf : s.Fits ps)
    (hs : SlashFree ps) :
    (assemble s ps).components = s.components ++ (meaningful ps).map componentOf := by
  rw [components, startOf_assemble hf hs, ← meaningful]
  by_cases hne : ps = []
  · subst hne
    cases s <;> rfl
  · rw [pieces_assemble hf hs hne]

/-- Only the empty path has no components. -/
theorem components_ne_nil {p : Path} (hp : p ≠ empty) : p.components ≠ [] := by
  intro h
  rw [components, List.append_eq_nil_iff, List.map_eq_nil_iff] at h
  have hfits := fits_pieces p
  cases hs : startOf p.chars with
  | root | here => rw [hs] at h; cases h.1
  | plain =>
    rw [hs] at hfits
    rcases hfits with hps | hps | ⟨q, rest, hps, hq, hdot⟩
    · exact absurd hps (List.splitOn_ne_nil _ _)
    · refine hp ?_
      have hchars : ['/'].intercalate (p.chars.splitOn '/') = p.chars :=
        List.intercalate_splitOn '/'
      rw [pieces, hs, show p.chars.drop Start.plain.chars.length = p.chars from rfl] at hps
      rw [hps] at hchars
      rw [← ofChars_chars p, ← hchars]
      rfl
    · rw [hps, List.filter_cons_of_pos (by simp [isIdle, hq, hdot])] at h
      cases h.2

/-- The start of a path does not hide a piece that means something. -/
theorem meaningful_splitOn (p : Path) :
    meaningful (p.chars.splitOn '/') = meaningful p.pieces := by
  rw [pieces]
  match p.chars with
  | [] => rfl
  | ['.'] => rfl
  | '.' :: '/' :: cs =>
    simp [startOf, Start.chars, List.splitOn_cons_eq_if_modifyHead, meaningful, isIdle]
  | c :: cs =>
    by_cases hroot : c = '/'
    · subst hroot
      simp [startOf, Start.chars, List.splitOn_cons_eq_if_modifyHead, meaningful, isIdle]
    by_cases hdot : c = '.' ∧ (cs = [] ∨ ∃ r, cs = '/' :: r)
    · obtain ⟨rfl, rfl | ⟨r, rfl⟩⟩ := hdot
      · rfl
      · simp [startOf, Start.chars, List.splitOn_cons_eq_if_modifyHead, meaningful, isIdle]
    · have hstart : startOf (c :: cs) = .plain := by
        unfold startOf
        split <;> simp_all
      rw [hstart]
      rfl

/-! ## Parents -/

theorem components_eq (p : Path) :
    p.components = (startOf p.chars).components ++ (meaningful p.pieces).map componentOf := rfl

/-- **The parent of a path has all its components but the last.** A last component that is no
step is the only one. -/
theorem components_parent? {p q : Path} (h : p.parent? = some q) :
    ∃ c, p.lastComponent? = some c ∧ p.components = q.components ++ [c] ∧
      (c.isStep = true ∨ q = empty) := by
  rw [parent?] at h
  have hpre := trimmedPieces_isPrefix p.pieces
  have hmean := meaningful_trimmedPieces p.pieces
  cases ht : trimmedPieces p.pieces with
  | nil =>
    rw [ht] at h hmean
    simp only at h
    split at h
    · rename_i hstart
      cases h
      have hc : p.components = [.here] := by
        rw [components_eq, ← hmean, hstart]; rfl
      exact ⟨.here, by rw [lastComponent?, hc]; rfl, by rw [hc]; rfl, Or.inr rfl⟩
    · cases h
  | cons z zs =>
    rw [ht] at h hpre hmean
    simp only [Option.some.injEq] at h
    have hne : z :: zs ≠ [] := List.cons_ne_nil _ _
    have hlast : isIdle ((z :: zs).getLast hne) = false := by
      have := @isIdle_getLast_trimmedPieces p.pieces (by rw [ht]; exact hne)
      simpa only [ht] using this
    have hsplit : meaningful p.pieces =
        meaningful (trimmedPieces (z :: zs).dropLast) ++ [(z :: zs).getLast hne] := by
      rw [meaningful_trimmedPieces, ← hmean]
      calc meaningful (z :: zs)
          = meaningful ((z :: zs).dropLast ++ [(z :: zs).getLast hne]) := by
            rw [List.dropLast_concat_getLast]
        _ = meaningful (z :: zs).dropLast ++ [(z :: zs).getLast hne] := by
            rw [meaningful, List.filter_append]
            simp [meaningful, hlast]
    have hpre' : trimmedPieces (z :: zs).dropLast <+: p.pieces :=
      ((trimmedPieces_isPrefix _).trans (List.dropLast_prefix _)).trans hpre
    have hq := components_assemble ((fits_pieces p).of_isPrefix hpre')
      ((slashFree_pieces p).of_isPrefix hpre')
    refine ⟨componentOf ((z :: zs).getLast hne), ?_, ?_, Or.inl (isStep_componentOf _)⟩
    · rw [lastComponent?, components_eq, hsplit, List.map_append, ← List.append_assoc]
      simp
    · rw [← h, hq, components_eq, hsplit, List.map_append, List.append_assoc]
      rfl

theorem isAbsolute_iff_startOf (p : Path) : p.isAbsolute = true ↔ startOf p.chars = .root := by
  unfold isAbsolute
  cases hcs : p.chars with
  | nil => simp [startOf]
  | cons c cs =>
    by_cases hc : c = '/'
    · subst hc; simp [startOf]
    · simp only [List.head?_cons, beq_iff_eq, Option.some.injEq, hc, false_iff]
      unfold startOf
      split <;> simp_all

theorem ne_empty_of_isAbsolute {p : Path} (h : p.isAbsolute = true) : p ≠ empty := by
  rintro rfl
  cases h

/-- A path with a parent starts where its parent starts, unless it is a single dot. -/
theorem startOf_parent? {p q : Path} (h : p.parent? = some q) (hq : q ≠ empty) :
    startOf q.chars = startOf p.chars := by
  rw [parent?] at h
  cases ht : trimmedPieces p.pieces with
  | nil =>
    rw [ht] at h
    simp only at h
    split at h
    · cases h; exact absurd rfl hq
    · cases h
  | cons z zs =>
    rw [ht] at h
    simp only [Option.some.injEq] at h
    have hpre : trimmedPieces (z :: zs).dropLast <+: p.pieces :=
      ((trimmedPieces_isPrefix _).trans (List.dropLast_prefix _)).trans
        (ht ▸ trimmedPieces_isPrefix p.pieces)
    rw [← h]
    exact startOf_assemble ((fits_pieces p).of_isPrefix hpre)
      ((slashFree_pieces p).of_isPrefix hpre)

theorem isAbsolute_parent? {p q : Path} (h : p.parent? = some q) :
    q.isAbsolute = p.isAbsolute := by
  by_cases hq : q = empty
  · subst hq
    -- the empty path is the parent of relative paths only
    rw [parent?] at h
    cases ht : trimmedPieces p.pieces with
    | nil =>
      rw [ht] at h
      simp only at h
      split at h
      · rename_i hstart
        rw [Bool.eq_iff_iff, isAbsolute_iff_startOf, isAbsolute_iff_startOf, hstart]
        simp [empty, chars, startOf]
      · cases h
    | cons z zs =>
      rw [ht] at h
      simp only [Option.some.injEq] at h
      cases hs : startOf p.chars with
      | root =>
        have := congrArg Path.chars h
        rw [assemble, chars_ofChars, hs] at this
        simp [Start.chars, empty, chars] at this
      | _ =>
        rw [Bool.eq_iff_iff, isAbsolute_iff_startOf, isAbsolute_iff_startOf, hs]
        simp [empty, chars, startOf]
  · rw [Bool.eq_iff_iff, isAbsolute_iff_startOf, isAbsolute_iff_startOf, startOf_parent? h hq]

/-! ## Joining -/

/-- The components of a path without a leading `.`. -/
def travel (p : Path) : List Component := p.components.filter (· ≠ .here)

theorem componentOf_ne_here (q : List Char) : componentOf q ≠ .here := by
  unfold componentOf
  split <;> simp

theorem travel_of_relative {p : Path} (h : p.isAbsolute = false) :
    p.travel = (meaningful p.pieces).map componentOf := by
  have hkeep : ((meaningful p.pieces).map componentOf).filter (· ≠ .here) =
      (meaningful p.pieces).map componentOf := by
    rw [List.filter_eq_self]
    intro c hc
    obtain ⟨q, -, rfl⟩ := List.mem_map.mp hc
    simpa using componentOf_ne_here q
  rw [travel, components_eq, List.filter_append, hkeep]
  cases hs : startOf p.chars with
  | root => rw [(isAbsolute_iff_startOf p).mpr hs] at h; cases h
  | here => rfl
  | plain => rfl

theorem startOf_append {cs ds : List Char} (h : cs ≠ []) :
    startOf (cs ++ '/' :: ds) = startOf cs := by
  match cs with
  | [] => exact absurd rfl h
  | ['.'] => rfl
  | '.' :: '/' :: cs => rfl
  | c :: cs =>
    by_cases hroot : c = '/'
    · subst hroot; rfl
    by_cases hdot : c = '.' ∧ (cs = [] ∨ ∃ r, cs = '/' :: r)
    · obtain ⟨rfl, rfl | ⟨r, rfl⟩⟩ := hdot <;> rfl
    · have hleft : startOf (c :: (cs ++ '/' :: ds)) = .plain := by
        cases cs with
        | nil =>
          have hc : c ≠ '.' := fun he => hdot ⟨he, Or.inl rfl⟩
          unfold startOf
          split <;> simp_all
        | cons d cs =>
          unfold startOf
          split <;> simp_all
      have hright : startOf (c :: cs) = .plain := by
        unfold startOf
        split <;> simp_all
      rw [List.cons_append, hleft, hright]

theorem length_start_le (cs : List Char) : (startOf cs).chars.length ≤ cs.length := by
  unfold startOf
  split <;> simp [Start.chars]

theorem components_append {cs ds : List Char} (h : cs ≠ []) :
    (ofChars (cs ++ '/' :: ds)).components =
      (ofChars cs).components ++ (meaningful (ds.splitOn '/')).map componentOf := by
  have hpieces : (ofChars (cs ++ '/' :: ds)).pieces =
      (ofChars cs).pieces ++ ds.splitOn '/' := by
    rw [pieces, pieces, chars_ofChars, chars_ofChars, startOf_append h,
      List.drop_append_of_le_length (length_start_le cs), List.splitOn_append_cons_self]
  rw [components_eq, components_eq, hpieces, chars_ofChars, chars_ofChars, startOf_append h,
    meaningful, List.filter_append, List.map_append, List.append_assoc]
  rfl

/-- **A relative path that is joined to another one adds its components.** -/
theorem components_join {p q : Path} (hp : p ≠ empty) (hq : q.isAbsolute = false) :
    (p.join q).components = p.components ++ q.travel := by
  have hcs : p.chars ≠ [] := fun he => hp (by rw [← ofChars_chars p, he]; rfl)
  obtain ⟨cs, c, hsplit⟩ : ∃ cs c, p.chars = cs ++ [c] :=
    ⟨_, _, (List.dropLast_concat_getLast hcs).symm⟩
  have hlast : p.chars.getLast? = some c := by rw [hsplit]; simp
  rw [join, hq, hlast, travel_of_relative hq, ← meaningful_splitOn]
  by_cases hc : c = '/'
  · subst hc
    rw [hsplit]
    simp only [Bool.false_eq_true, if_false, List.append_assoc, List.singleton_append]
    by_cases he : cs = []
    · subst he
      have hp' : p = ofChars ['/'] := by rw [← ofChars_chars p, hsplit]; rfl
      rw [hp', components_eq, components_eq]
      simp [startOf, Start.chars, Start.components, pieces, meaningful, isIdle]
    · have hp' : p.components = (ofChars cs).components := by
        rw [← ofChars_chars p, hsplit, components_append he]
        simp [meaningful, isIdle]
      rw [components_append he, hp']
  · simp only [Bool.false_eq_true, if_false]
    rw [components_append hcs, ofChars_chars]

theorem isAbsolute_join {p q : Path} (hp : p ≠ empty) (hq : q.isAbsolute = false) :
    (p.join q).isAbsolute = p.isAbsolute := by
  rw [join, hq]
  cases hcs : p.chars with
  | nil => exact absurd (by rw [← ofChars_chars p, hcs]; rfl) hp
  | cons c cs =>
    simp only [Bool.false_eq_true, if_false]
    split
    · rename_i hlast
      simp at hlast
    · rw [isAbsolute, isAbsolute, chars_ofChars, hcs]; rfl
    · rw [isAbsolute, isAbsolute, chars_ofChars, hcs]; rfl

/-! ## The names that a walk takes -/

/-- The names of a path that lead somewhere: all of them but `.`. -/
def moves (p : Path) : List String := p.steps.filter (· ≠ ".")

theorem mem_steps {p : Path} {name : String} (h : name ∈ p.steps) :
    name ≠ "" ∧ '/' ∉ name.toList := by
  obtain ⟨q, hq, rfl⟩ := List.mem_map.mp h
  obtain ⟨hq, hne⟩ := List.mem_filter.mp hq
  rw [String.toList_ofList]
  refine ⟨fun he => ?_, not_mem_of_mem_splitOn hq⟩
  have := congrArg String.toList he
  rw [String.toList_ofList] at this
  simp [this] at hne

theorem slashFree_walkSteps (p : Path) : ∀ name ∈ p.walkSteps, '/' ∉ name.toList := by
  intro name h
  rw [walkSteps, List.mem_append] at h
  rcases h with h | h
  · exact (mem_steps h).2
  · split at h
    · obtain rfl := List.mem_singleton.mp h
      exact List.not_mem_nil
    · cases h

theorem steps_eq (p : Path) :
    p.steps = ((p.chars.splitOn '/').filter (· ≠ [])).map String.ofList := rfl

theorem ofList_eq_dot {q : List Char} : String.ofList q = "." ↔ q = ['.'] := by
  constructor
  · intro h
    have := congrArg String.toList h
    rwa [String.toList_ofList] at this
  · rintro rfl; rfl

theorem moves_eq_meaningful (p : Path) : p.moves = (meaningful p.pieces).map String.ofList := by
  rw [moves, steps_eq, List.filter_map, List.filter_filter, ← meaningful_splitOn, meaningful]
  congr 1
  refine List.filter_congr fun q _ => ?_
  rw [Bool.eq_iff_iff]
  simp [isIdle, ofList_eq_dot, and_comm]

theorem text_componentOf (q : List Char) : (componentOf q).text = String.ofList q := by
  unfold componentOf
  split
  · rename_i h; rw [h]; rfl
  · rfl

/-- **The names that a walk takes, but for `.`, are the components of the path.** -/
theorem moves_eq_components (p : Path) :
    p.moves = (p.components.filter Component.isStep).map Component.text := by
  have hkeep : ((meaningful p.pieces).map componentOf).filter Component.isStep =
      (meaningful p.pieces).map componentOf := by
    rw [List.filter_eq_self]
    intro c hc
    obtain ⟨q, -, rfl⟩ := List.mem_map.mp hc
    exact isStep_componentOf q
  have hstart : (startOf p.chars).components.filter Component.isStep = [] := by
    cases startOf p.chars <;> rfl
  rw [moves_eq_meaningful, components_eq, List.filter_append, hkeep, hstart, List.nil_append,
    List.map_map]
  exact List.map_congr_left fun q _ => (text_componentOf q).symm

/-- What a relative path adds to another are steps. -/
theorem isStep_of_mem_travel {p : Path} (h : p.isAbsolute = false) {c : Component}
    (hc : c ∈ p.travel) : c.isStep = true := by
  rw [travel_of_relative h] at hc
  obtain ⟨q, -, rfl⟩ := List.mem_map.mp hc
  exact isStep_componentOf q

theorem moves_eq_travel {p : Path} (h : p.isAbsolute = false) :
    p.moves = p.travel.map Component.text := by
  rw [moves_eq_meaningful, travel_of_relative h, List.map_map]
  exact List.map_congr_left fun q _ => (text_componentOf q).symm

theorem moves_of_components {p q : Path} {cs : List Component}
    (h : p.components = q.components ++ cs) :
    p.moves = q.moves ++ (cs.filter Component.isStep).map Component.text := by
  rw [moves_eq_components, moves_eq_components, h, List.filter_append, List.map_append]

/-- What comes after the components of another path are steps. -/
theorem isStep_of_components {p q : Path} {cs : List Component}
    (h : p.components = q.components ++ cs) (hq : q ≠ empty) : ∀ c ∈ cs, c.isStep = true := by
  intro c hc
  have hmean {c : Component} (hc : c ∈ (meaningful p.pieces).map componentOf) :
      c.isStep = true := by
    obtain ⟨z, -, rfl⟩ := List.mem_map.mp hc
    exact isStep_componentOf z
  rw [components_eq] at h
  rcases List.append_eq_append_iff.mp h with ⟨as, -, hms⟩ | ⟨as, hstart, hcs⟩
  · exact hmean (hms ▸ List.mem_append_right _ hc)
  · -- a path starts with one component that is no step at most
    have hlen : (startOf p.chars).components.length ≤ 1 := by
      cases startOf p.chars <;> simp [Start.components]
    have hpos := List.length_pos_iff.mpr (components_ne_nil hq)
    have hlen' := congrArg List.length hstart
    rw [List.length_append] at hlen'
    obtain rfl : as = [] := List.length_eq_zero_iff.mp (by omega)
    rw [hcs] at hc
    exact hmean hc

/-- An ancestor of a path has some of its components, from the first on. -/
theorem components_ancestor {p q : Path} (h : q ∈ p.ancestors) :
    (∃ cs, p.components = q.components ++ cs) ∧ q.isAbsolute = p.isAbsolute := by
  rw [ancestors] at h
  generalize p.chars.length + 1 = fuel at h
  induction fuel generalizing p with
  | zero => cases h
  | succ fuel ih =>
    rw [ancestorsUpTo] at h
    rcases List.mem_cons.mp h with rfl | h
    · exact ⟨⟨[], (List.append_nil _).symm⟩, rfl⟩
    cases hp : p.parent? with
    | none => rw [hp] at h; cases h
    | some r =>
      rw [hp] at h
      obtain ⟨⟨cs, hcs⟩, habs⟩ := ih h
      obtain ⟨c, -, hc, -⟩ := components_parent? hp
      refine ⟨⟨cs ++ [c], ?_⟩, habs.trans (isAbsolute_parent? hp)⟩
      rw [hc, hcs, List.append_assoc]

/-- A relative path that is not empty takes a step. -/
theorem walkSteps_ne_nil {p : Path} (h : p.isAbsolute = false) (ht : p.text ≠ "") :
    p.walkSteps ≠ [] := by
  cases hcs : p.chars with
  | nil => exact absurd (String.toList_eq_nil_iff.mp hcs) ht
  | cons c cs =>
    have hc : c ≠ '/' := by
      rintro rfl
      rw [isAbsolute, hcs] at h
      cases h
    obtain ⟨q, rest, hq⟩ := List.exists_cons_of_ne_nil (List.splitOn_ne_nil '/' cs)
    rw [walkSteps, steps_eq, hcs, List.splitOn_cons_eq_if_modifyHead, if_neg (by simpa using hc),
      hq, List.modifyHead_cons, List.filter_cons_of_pos (by simp)]
    simp

/-- Only a path that takes no steps has no parent. -/
theorem moves_of_parent?_eq_none {p : Path} (h : p.parent? = none) : p.moves = [] := by
  rw [parent?] at h
  cases ht : trimmedPieces p.pieces with
  | nil =>
    rw [moves_eq_meaningful, ← meaningful_trimmedPieces, ht]
    rfl
  | cons z zs => rw [ht] at h; cases h

/-! ## Trim paths -/

/-- A path whose text ends in a name or in `..`. -/
def IsTrim (p : Path) : Prop := ∃ q, (p.chars.splitOn '/').getLast? = some q ∧ isIdle q = false

theorem isTrim_assemble {s : Start} {ps : List (List Char)} (hf : s.Fits ps) (hs : SlashFree ps)
    {q : List Char} (hlast : ps.getLast? = some q) (hq : isIdle q = false) :
    (assemble s ps).IsTrim := by
  refine ⟨q, ?_, hq⟩
  have hne : ps ≠ [] := by rintro rfl; cases hlast
  rw [assemble, chars_ofChars]
  cases s with
  | plain => rw [Start.chars, List.nil_append, List.splitOn_intercalate '/' hs hne, hlast]
  | root =>
    rw [Start.chars, List.singleton_append, List.splitOn_cons_eq_if_modifyHead,
      if_pos (beq_self_eq_true _), List.splitOn_intercalate '/' hs hne, List.getLast?_cons,
      hlast]
    rfl
  | here =>
    obtain rfl | ⟨rest, rfl⟩ := hf
    · exact absurd rfl hne
    have hrest : rest ≠ [] := by
      rintro rfl
      obtain rfl : q = [] := (Option.some.inj hlast).symm
      cases hq
    obtain ⟨q', rest', hq'⟩ := List.exists_cons_of_ne_nil hrest
    have hs' : ∀ x ∈ rest, '/' ∉ x := fun x hx => hs x (List.mem_cons_of_mem _ hx)
    rw [hq', List.intercalate_cons_cons, ← hq', Start.chars, List.nil_append]
    rw [show ['.'] ++ (['/'] ++ ['/'].intercalate rest) = ['.'] ++ '/' :: ['/'].intercalate rest
      from rfl, List.splitOn_append_cons_self, List.splitOn_intercalate '/' hs' hrest,
      List.getLast?_append]
    rw [List.getLast?_cons, hq', List.getLast?_cons, ← List.getLast?_cons] at hlast
    rw [hq', List.getLast?_cons] at *
    simp_all

theorem isTrim_parent? {p q : Path} (h : p.parent? = some q) (hq : q.moves ≠ []) : q.IsTrim := by
  rw [parent?] at h
  cases ht : trimmedPieces p.pieces with
  | nil =>
    rw [ht] at h
    simp only at h
    split at h
    · cases h; exact absurd rfl hq
    · cases h
  | cons z zs =>
    rw [ht] at h
    simp only [Option.some.injEq] at h
    have hpre : trimmedPieces (z :: zs).dropLast <+: p.pieces :=
      ((trimmedPieces_isPrefix _).trans (List.dropLast_prefix _)).trans
        (ht ▸ trimmedPieces_isPrefix p.pieces)
    have hf := (fits_pieces p).of_isPrefix hpre
    have hs := (slashFree_pieces p).of_isPrefix hpre
    have hne : trimmedPieces (z :: zs).dropLast ≠ [] := by
      intro he
      rw [he] at h hf hs
      rw [← h, moves_eq_components, components_assemble hf hs] at hq
      revert hq
      cases startOf p.chars <;> exact fun hq => absurd rfl hq
    rw [← h]
    exact isTrim_assemble hf hs (List.getLast?_eq_some_getLast hne)
      (isIdle_getLast_trimmedPieces hne)

theorem IsTrim.join {p q : Path} (hq : q.IsTrim) (hr : q.isAbsolute = false) :
    (p.join q).IsTrim := by
  obtain ⟨z, hz, hidle⟩ := hq
  rw [Path.join, hr]
  simp only [Bool.false_eq_true, if_false]
  split
  · exact ⟨z, hz, hidle⟩
  · rename_i hlast
    obtain ⟨cs, hcs⟩ := List.getLast?_eq_some_iff.mp hlast
    refine ⟨z, ?_, hidle⟩
    rw [chars_ofChars, hcs, List.append_assoc, List.singleton_append,
      List.splitOn_append_cons_self, List.getLast?_append, hz]
    rfl
  · refine ⟨z, ?_, hidle⟩
    rw [chars_ofChars, List.splitOn_append_cons_self, List.getLast?_append, hz]
    rfl

/-- A walk along a trim path ends with a name or with `..`. -/
theorem IsTrim.steps {p : Path} (h : p.IsTrim) :
    ∃ names last, p.steps = names ++ [last] ∧ last ≠ "." := by
  obtain ⟨q, hq, hidle⟩ := h
  obtain ⟨init, hinit⟩ := List.getLast?_eq_some_iff.mp hq
  have hq' : q ≠ [] := by rintro rfl; cases hidle
  refine ⟨(init.filter (· ≠ [])).map String.ofList, String.ofList q, ?_, ?_⟩
  · rw [steps_eq, hinit, List.filter_append, List.map_append]
    simp [hq']
  · rw [Ne, ofList_eq_dot]
    rintro rfl
    cases hidle

/-- A path that is walked up to a name, or to `..`, is trim. -/
theorem isTrim_of_walkSteps {p : Path} {xs : List String} {n : String}
    (h : p.walkSteps = xs ++ [n]) (hempty : n ≠ "") (hdot : n ≠ ".") : p.IsTrim := by
  have hslash : p.endsInSlash = false := by
    refine Bool.eq_false_iff.mpr fun hs => hempty ?_
    rw [walkSteps, hs] at h
    exact (List.cons.inj (List.append_inj' h rfl).2).1.symm
  rw [walkSteps, hslash, if_neg Bool.false_ne_true, List.append_nil] at h
  have hne := List.splitOn_ne_nil '/' p.chars
  refine ⟨_, List.getLast?_eq_some_getLast hne, Bool.eq_false_iff.mpr fun hidle => ?_⟩
  have hsplit := (List.dropLast_concat_getLast hne).symm
  generalize (p.chars.splitOn '/').dropLast = init at hsplit
  rcases (by simpa [isIdle] using hidle : _ = [] ∨ _ = ['.']) with hlast | hlast <;>
    rw [hlast] at hsplit
  · by_cases hinit : init = []
    · rw [steps_eq, hsplit, hinit] at h
      simp at h
    · have hchars : ['/'].intercalate (p.chars.splitOn '/') = p.chars := List.intercalate_splitOn _
      rw [hsplit, intercalate_append hinit (List.cons_ne_nil _ _)] at hchars
      simp [endsInSlash, h, ← hchars] at hslash
  · rw [steps_eq, hsplit, List.filter_append, List.map_append] at h
    have hn := (List.append_inj' h rfl).2
    rw [List.filter_cons_of_pos (by simp)] at hn
    exact hdot (List.cons.inj hn).1.symm

theorem IsTrim.endsInSlash {p : Path} (h : p.IsTrim) : p.endsInSlash = false := by
  obtain ⟨q, hq, hidle⟩ := h
  rw [Path.endsInSlash, Bool.and_eq_false_iff]
  refine Or.inl ?_
  rw [beq_eq_false_iff_ne]
  intro hlast
  obtain ⟨cs, hcs⟩ := List.getLast?_eq_some_iff.mp hlast
  rw [hcs, List.splitOn_append_cons_self, List.splitOn_nil, List.getLast?_append] at hq
  cases hq
  cases hidle

theorem IsTrim.walkSteps {p : Path} (h : p.IsTrim) : p.walkSteps = p.steps := by
  rw [Path.walkSteps, h.endsInSlash]
  simp

end Path
end Stowage
