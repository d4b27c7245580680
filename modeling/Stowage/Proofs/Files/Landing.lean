import Stowage.Proofs.Files.Calls

/-!
# Staying below a directory

Before something is unpacked, its parent is checked with `resolveUnder` and then made
with `makeDirAll`.  This module shows that afterwards the parent lies in the directory,
and that no call on the way has left it.

* `Lands` is what a positive answer of `resolveUnder` means for a path that goes on
  from an existing directory by proper names: some of its names lead to a node below
  the root, and of the others, if there are any, the first leads nowhere
  (`lands_of_resolveUnder`).
* `Preparing` is the invariant of making the missing directories.  Until the first one
  is there nothing has changed, and from then on everything below it is a directory,
  so that no link can lead the following ones astray (`Preparing.make`).
* `Confined` is what is left in the end: if the path leads to a node at all, this
  node lies below the root.  Removing something keeps it (`Confined.anti`).
-/

namespace Stowage.FileSystem

open Result Call

variable {fs fs' fs₀ : FileSystem} {root base : Location} {dir p q : Path}
  {done missing : List String}

/-! ## What a positive answer means -/

/-- The names of a path lead to `base` as far as they lead anywhere, and `base` lies in
`root`. -/
structure Lands (fs : FileSystem) (root : Location) (p : Path) (base : Location)
    (done missing : List String) : Prop where
  moves : p.moves = done ++ missing
  arrives : Leads fs .understood .followed maxLinks (fs.startOf p) done (.present base)
  proper : ∀ n ∈ missing, IsName n
  breaks : ∀ m rest loc, missing = m :: rest →
    ¬Leads fs .understood .followed maxLinks (fs.startOf p) (done ++ [m]) (.present loc)
  inside : Location.within root base = true

theorem startOf_congr (h : p.isAbsolute = q.isAbsolute) : fs.startOf p = fs.startOf q := by
  rw [startOf, startOf, h]

/-- **What a path with a canonical path goes past** is there. -/
theorem Canonical.passes (hwf : fs.WellFormed) {loc : Location} {cs : List Component}
    (h : fs.Canonical p loc) (hcomps : p.components = q.components ++ cs)
    (habs : q.isAbsolute = p.isAbsolute) :
    ∃ mid, fs.Reaches .followed q (.present mid) ∧ fs.HoldsPlain mid := by
  have hreaches := h.reaches
  rw [Reaches, Path.moves_of_components hcomps] at hreaches
  obtain ⟨mid, hmid⟩ : ∃ mid, Leads fs .understood .followed maxLinks (fs.startOf p) q.moves
      (.present mid) := by
    by_cases hne : (cs.filter Component.isStep).map Component.text = []
    · rw [hne, List.append_nil] at hreaches
      exact ⟨loc, hreaches⟩
    · obtain ⟨mid, _, hmid, -⟩ := hreaches.of_append hne
      exact ⟨mid, hmid⟩
  refine ⟨mid, ?_, hmid.holdsPlain hwf h.start_holdsPlain⟩
  rwa [Reaches, startOf_congr habs]

/-- A path that other walks pass has a canonical path.  At its end there is a directory, or
else it must be trim. -/
theorem canonical_of_isPrefix {rest : List String} {r : Location}
    (hdir : fs.Reaches .followed dir (.present r)) (habs : p.isAbsolute = dir.isAbsolute)
    (hmoves : dir.moves = p.moves ++ rest)
    (hend : p.IsTrim ∨ ∃ mode, fs.node? r = some (.directory mode)) (hc : checkPath p = .ok ()) :
    ∃ loc, fs.Canonical p loc := by
  rw [Reaches, ← startOf_congr habs, hmoves] at hdir
  by_cases hrest : rest = []
  · rw [hrest, List.append_nil] at hdir
    exact ⟨r, hend.elim (fun htrim => .of_reaches htrim hc hdir) (.of_reaches_directory hc hdir)⟩
  · obtain ⟨mid, _, hmid, hgo⟩ := hdir.of_append hrest
    exact ⟨mid, .of_reaches_directory hc hmid (hgo.start_isDirectory hrest)⟩

/-- A path that is not found is not canonical. -/
theorem not_canonical_of_notFound (hnot : fs.canonicalize p = .error (.os .notFound))
    (loc : Location) : ¬fs.Canonical p loc := by
  intro h
  rw [canonicalize_eq_ok.mpr ⟨loc, rfl, h⟩] at hnot
  cases hnot

/-- When a step leads nowhere, it is one to a name, and only a link can have this name. -/
theorem not_holdsPlain_of_notFound (hwf : fs.WellFormed) {m : String} (hp : p ≠ .empty)
    (hmoves : p.moves = done ++ [m])
    (hbase : Leads fs .understood .followed maxLinks (fs.startOf p) done (.present base))
    (hplain : fs.HoldsPlain base) (hnot : fs.canonicalize p = .error (.os .notFound)) :
    m ≠ ".." ∧ ¬fs.HoldsPlain (m :: base) := by
  obtain ⟨node, hnode, -⟩ := hplain
  obtain ⟨-, zs, hzs, hmissing⟩ := of_canonicalize_notFound hp hnot
  obtain ⟨b, hresume⟩ := hbase.resume
  rw [hmoves, List.append_assoc, hresume _ _ (by simp) (by simp), List.singleton_append] at hmissing
  refine ⟨?_, fun hplain => not_isMissing_name hzs hwf hplain hmissing⟩
  rintro rfl
  exact not_isMissing_up hzs hwf hnode hmissing

namespace FirstMissing
variable {x a a' : Path} {c : Component} (h : fs.FirstMissing x a a' c)
include h

theorem ne_empty : a' ≠ .empty := by
  rintro rfl
  cases h.parent

theorem isAbsolute : a'.isAbsolute = a.isAbsolute := (Path.isAbsolute_parent? h.parent).symm

theorem components : a'.components = a.components ++ [c] := by
  obtain ⟨c', hlast, hcomps, -⟩ := Path.components_parent? h.parent
  obtain rfl : c' = c := Option.some.inj (hlast.symm.trans h.last)
  exact hcomps

/-- What is cut off a path with a canonical path is a step. -/
theorem moves (ha : a ≠ .empty) : a'.moves = a.moves ++ [c.text] := by
  obtain ⟨c', hlast, hcomps, hstep⟩ := Path.components_parent? h.parent
  obtain rfl : c' = c := Option.some.inj (hlast.symm.trans h.last)
  have hmoves := Path.moves_of_components hcomps
  rwa [List.filter_cons_of_pos (hstep.resolve_right ha), List.filter_nil, List.map_singleton]
    at hmoves

/-- On the way to the parent of a path, a missing ancestor ends in a step. -/
theorem isTrim (ha : a ≠ .empty) {y : Path} (hx : y.parent? = some x) : a'.IsTrim := by
  obtain ⟨z, hz⟩ : ∃ z, Path.parent? z = some a' :=
    h.outer.elim (fun he => ⟨y, he ▸ hx⟩) id
  exact Path.isTrim_parent? hz (by rw [h.moves ha]; simp)

/-- **What is missing is not passed** on the way to a directory, or by a trim path. -/
theorem not_passed {r : Location} {cs : List Component}
    (hreach : fs.Reaches .followed p (.present r)) (habs : a.isAbsolute = p.isAbsolute)
    (hcomps : p.components = a.components ++ c :: cs)
    (hend : a'.IsTrim ∨ ∃ mode, fs.node? r = some (.directory mode)) : False := by
  have hpass : p.components = a'.components ++ cs := by
    rw [hcomps, h.components, List.append_assoc]
    rfl
  obtain ⟨loc, hloc⟩ := canonical_of_isPrefix hreach (h.isAbsolute.trans habs)
    (Path.moves_of_components hpass) hend (of_canonicalize_notFound h.ne_empty h.notFound).1
  exact not_canonical_of_notFound h.notFound loc hloc

/-- **What is missing leads nowhere**, if it ends in a step. -/
theorem not_reached (ha : a ≠ .empty) (htrim : a'.IsTrim) (loc : Location) :
    ¬Leads fs .understood .followed maxLinks (fs.startOf a) (a.moves ++ [c.text])
      (.present loc) := by
  intro hloc
  refine not_canonical_of_notFound h.notFound loc
    (.of_reaches htrim (of_canonicalize_notFound h.ne_empty h.notFound).1 ?_)
  rw [Reaches, h.moves ha, startOf_congr h.isAbsolute]
  exact hloc

/-- **What is missing** is a step to a name, and only a link can have this name. -/
theorem not_holdsPlain (hwf : fs.WellFormed) (ha : fs.Canonical a base) :
    c.text ≠ ".." ∧ ¬fs.HoldsPlain (c.text :: base) := by
  refine not_holdsPlain_of_notFound hwf h.ne_empty (h.moves ha.ne_empty) ?_ (ha.holdsPlain hwf)
    h.notFound
  rw [startOf_congr h.isAbsolute]
  exact ha.reaches

end FirstMissing

/-- A location is a suffix of what lies below it, unless something is missing above it. -/
theorem within_of_breaks (hwf : fs.WellFormed) (hroot : fs.HoldsPlain root)
    (hw : Location.within root (missing.reverse ++ base) = true)
    (hbreaks : ∀ m rest, missing = m :: rest → ¬fs.HoldsPlain (m :: base)) :
    Location.within root base = true := by
  rw [Location.within_iff] at hw ⊢
  rcases List.suffix_or_suffix_of_suffix hw (List.suffix_append ..) with h | ⟨names, rfl⟩
  · exact h
  rcases List.eq_nil_or_concat names with rfl | ⟨init, m, rfl⟩
  · exact List.suffix_refl _
  exfalso
  rw [List.concat_append] at hw hroot
  -- the outermost of the names between `base` and `root` is the first one missing
  cases missing with
  | nil =>
    have := hw.length_le
    simp at this
    omega
  | cons m' rest =>
    rw [List.reverse_cons, List.append_assoc, List.singleton_append] at hw
    have h₁ : m :: base <:+ rest.reverse ++ m' :: base := (List.suffix_append ..).trans hw
    have h₂ : m :: base = m' :: base :=
      (List.suffix_of_suffix_length_le h₁ (List.suffix_append ..) (by simp)).eq_of_length (by simp)
    refine hbreaks m' rest rfl (h₂ ▸ ?_)
    cases init with
    | nil => exact hroot
    | cons n init =>
      obtain ⟨node, hnode, -⟩ := hroot
      exact holdsPlain_of_directory (hwf.directory_above hnode)

/-- **What a positive answer of `resolveUnder` means** for the parent of a path, when it
continues an existing directory by proper names. -/
theorem lands_of_resolveUnder (hwf : fs.WellFormed) {names : List String} {x : Path}
    (hdir : fs.Canonical dir root) (hx : x.parent? = some p)
    (hcomps : p.components = dir.components ++ names.map .name)
    (hnames : ∀ n ∈ names, IsName n) (habs : p.isAbsolute = dir.isAbsolute)
    (h : fs.resolveUnder root.path p = .ok (some q)) :
    ∃ base done missing, fs.Lands root p base done missing := by
  obtain ⟨a, pre, base, stack, hbase, hpre, habs', hred, rfl, hstarts, hfirst⟩ :=
    landing_eq_some h
  rw [List.append_nil] at hred
  have hroot := hdir.holdsPlain hwf
  -- what is missing comes after the directory, which is there
  obtain ⟨missing, rfl, hmissing⟩ :
      ∃ missing : List String, pre = missing.map Component.name ∧ ∀ n ∈ missing, IsName n := by
    rcases List.append_eq_append_iff.mp (hpre.symm.trans hcomps) with
      ⟨cs, hcs, rfl⟩ | ⟨cs, hcs, hds⟩
    · cases cs with
      | nil => exact ⟨names, rfl, hnames⟩
      | cons c cs =>
        exfalso
        obtain ⟨hnil, -⟩ | ⟨c', rest, a', hcons, hmiss⟩ := hfirst
        · cases hnil
        obtain ⟨rfl, -⟩ := List.cons.inj hcons
        exact hmiss.not_passed hdir.reaches (habs'.trans habs) hcs
          (Or.inl (hmiss.isTrim hbase.ne_empty hx))
    · obtain ⟨l₁, l₂, rfl, rfl, rfl⟩ := List.map_eq_append_iff.mp hds
      exact ⟨l₂, rfl, fun n hn => hnames n (List.mem_append_right _ hn)⟩
  have hstart : fs.startOf a = fs.startOf p := startOf_congr habs'
  have harrives : Leads fs .understood .followed maxLinks (fs.startOf p) a.moves (.present base) :=
    hstart ▸ hbase.reaches
  have hbreaks (m rest) (he : missing = m :: rest) :
      ¬fs.HoldsPlain (m :: base) ∧ ∀ loc,
        ¬Leads fs .understood .followed maxLinks (fs.startOf p) (a.moves ++ [m])
          (.present loc) := by
    subst he
    obtain ⟨hnil, -⟩ | ⟨c', rest', a', hcons, hmiss⟩ := hfirst
    · cases hnil
    obtain ⟨rfl, -⟩ := List.cons.inj hcons
    exact ⟨(hmiss.not_holdsPlain hwf hbase).2, fun loc => hstart ▸
      hmiss.not_reached hbase.ne_empty (hmiss.isTrim hbase.ne_empty hx) loc⟩
  refine ⟨base, a.moves, missing, ?_, harrives, hmissing, fun m rest loc he =>
    (hbreaks m rest he).2 loc, ?_⟩
  · rw [Path.moves_of_names hpre]
  · rw [Path.reduce_names] at hred
    obtain rfl := Option.some.inj hred
    rw [List.reverse_reverse] at hstarts
    obtain ⟨rnode, hrnode, -⟩ := id hroot
    obtain ⟨bnode, hbnode, -⟩ := hbase.holdsPlain hwf
    rw [Location.startsWith_path_iff (hwf.names hrnode) (hwf.names hbnode) hmissing] at hstarts
    exact within_of_breaks hwf hroot hstarts fun m rest he => (hbreaks m rest he).1

/-! ## Making the missing directories -/

/-- **The invariant of making the missing directories.**  As long as the first one is
missing there is nothing new, and then everything from there on is a directory. -/
structure Preparing (fs₀ fs : FileSystem) (root base : Location) (missing : List String) :
    Prop where
  wellFormed : fs.WellFormed
  keeps : NodesIn fs₀ fs
  fresh : NodesIn fs fs₀ ∨ ∃ m rest, missing = m :: rest ∧
    ∀ loc node, Location.within (m :: base) loc = true → fs.node? loc = some node →
      ∃ mode, node = .directory mode
  changed : ChangedOnly (Location.Inside root) fs₀ fs

theorem Preparing.start (hwf : fs₀.WellFormed) : Preparing fs₀ fs₀ root base missing :=
  ⟨hwf, .refl _, Or.inl (.refl _), .refl _⟩

theorem Preparing.startOf_eq (h : Preparing fs₀ fs root base missing) (p : Path) :
    fs.startOf p = fs₀.startOf p := by
  rw [startOf, startOf, h.changed.workingDir]

/-- A free name and a node cannot be found along the same names. -/
theorem Leads.not_vacant {dots : DotNames} {b : Nat} {cur loc d : Location}
    {names : List String} {n : String}
    (h : Leads fs dots .followed b cur names (.present loc)) :
    ¬Leads fs dots .kept b cur names (.vacant d n) := by
  intro h'
  rcases h.kept with ⟨l, h⟩ | h
  · cases h.unique h'
  · cases h.unique h'

theorem within_of_isPrefix {m : String} {as pre : List String} (base : Location) (hne : pre ≠ [])
    (hpre : pre <+: m :: as) : Location.within (m :: base) (pre.reverse ++ base) = true := by
  cases pre with
  | nil => exact absurd rfl hne
  | cons x pre =>
    obtain ⟨rfl, -⟩ := List.cons_prefix_cons.mp hpre
    rw [List.reverse_cons, List.append_assoc]
    exact Location.within_append _ (Location.within_refl _)

section Lands
variable (hl : fs₀.Lands root p base done missing) (hp : Preparing fs₀ fs root base missing)
include hl hp

theorem Lands.arrives_later :
    Leads fs .understood .followed maxLinks (fs.startOf p) done (.present base) := by
  rw [hp.startOf_eq]
  exact hl.arrives.mono hp.keeps

/-- While nothing is new, the first missing name leads nowhere. -/
theorem Lands.breaks_later (hfresh : NodesIn fs fs₀) {m : String} {rest : List String}
    (hm : missing = m :: rest) (loc : Location) :
    ¬Leads fs .understood .followed maxLinks (fs.startOf p) (done ++ [m]) (.present loc) := by
  intro h
  rw [hp.startOf_eq] at h
  exact hl.breaks m rest loc hm (h.mono hfresh)

/-- **Directories are made in order**: a free name on the way to the path is at or below
the first missing name, and it is this name as long as nothing is new. -/
theorem Lands.place (hq : q ∈ p.ancestors) {d : Location} {n : String}
    (h : fs.locateName q = .ok (.vacant d n)) :
    ∃ m rest, missing = m :: rest ∧ Location.within (m :: base) (n :: d) = true ∧
      (NodesIn fs fs₀ → n :: d = m :: base) := by
  have harrives := hl.arrives_later hp
  have hvacant : fs.Reaches .kept q (.vacant d n) := reaches_of_locateName h
  obtain ⟨⟨cs, hcs⟩, habs⟩ := Path.components_ancestor hq
  have hmoves := Path.moves_of_components hcs
  rw [Reaches, startOf_congr habs] at hvacant
  rcases List.append_eq_append_iff.mp (hl.moves.symm.trans hmoves) with
    ⟨as, has, hmissing⟩ | ⟨as, has, -⟩
  · rw [has] at hvacant
    cases as with
    | nil =>
      rw [List.append_nil] at hvacant
      exact absurd hvacant harrives.not_vacant
    | cons m as =>
      obtain ⟨mid, b, hmid, hrest⟩ := hvacant.of_append (List.cons_ne_nil m as)
      obtain rfl : mid = base := Spot.present.inj (hmid.unique harrives)
      refine ⟨m, _, hmissing, ?_⟩
      have hname (x) (hx : x ∈ m :: as) : IsName x :=
        hl.proper x (hmissing ▸ List.mem_append_left _ hx)
      by_cases has : as = []
      · subst has
        have hm := hname m List.mem_cons_self
        rcases hrest.of_single hm with hs | ⟨hs, -⟩
        · cases hs
          exact ⟨Location.within_refl _, fun _ => rfl⟩
        · cases hs
      · -- the walk goes past the first missing name, so it has been made
        have hpast : ∃ loc, Leads fs .understood .followed maxLinks (fs.startOf p)
            (done ++ [m]) (.present loc) := by
          rw [show done ++ m :: as = (done ++ [m]) ++ as by simp] at hvacant
          obtain ⟨loc, _, hloc, -⟩ := hvacant.of_append has
          exact ⟨loc, hloc⟩
        obtain ⟨loc, hloc⟩ := hpast
        have hnew (hfresh : NodesIn fs fs₀) : False :=
          hl.breaks_later hp hfresh hmissing loc hloc
        refine ⟨?_, fun hfresh => (hnew hfresh).elim⟩
        obtain ⟨m', rest, hm', hdirs⟩ := hp.fresh.resolve_left hnew
        obtain ⟨rfl, -⟩ := List.cons.inj (hmissing.symm.trans hm')
        have hstraight := hrest.straight hname fun pre node hne hpre hnode =>
          hdirs _ node (within_of_isPrefix mid hne hpre) hnode
        rcases hstraight with hs | ⟨init, x, hinit, hs⟩
        · cases hs
        · cases hs
          have := @within_of_isPrefix m as (init ++ [n]) mid (by simp)
            (hinit ▸ List.prefix_refl _)
          simpa using this
  · rw [has] at harrives
    by_cases hnil : as = []
    · rw [hnil, List.append_nil] at harrives
      exact absurd hvacant harrives.not_vacant
    · obtain ⟨mid, _, hmid, -⟩ := harrives.of_append hnil
      exact absurd hvacant hmid.not_vacant

/-- **Making the next directory keeps the invariant.** -/
theorem Lands.make (hq : q ∈ p.ancestors) {d : Location} {n : String} (mode : Mode)
    (h : fs.locateName q = .ok (.vacant d n)) :
    Preparing fs₀ (fs.put (n :: d) (.directory mode)) root base missing := by
  obtain ⟨m, rest, hm, hwithin, hfirst⟩ := hl.place hp hq h
  have hleads := (locateName_eq_ok.mp h).2
  obtain ⟨hdir, hfree⟩ := hleads.of_vacant
  have hname := hleads.isName_of_vacant fun x hx => (Path.mem_steps hx).2
  refine ⟨hp.wellFormed.put_of_vacant hname hdir hfree (by simp),
    hp.keeps.trans (nodesIn_put hfree _), Or.inr ⟨m, rest, hm, fun loc node hloc hnode => ?_⟩,
    hp.changed.trans (changedOnly_put _ ?_)⟩
  · by_cases heq : loc = n :: d
    · subst heq
      rw [node?_put_self] at hnode
      exact ⟨mode, (Option.some.inj hnode).symm⟩
    rw [node?_put_of_ne fs _ heq] at hnode
    rcases hp.fresh with hfresh | ⟨m', rest', hm', hdirs⟩
    · -- the first missing name was free, so that nothing lay below it
      obtain ⟨rfl, rfl⟩ := List.cons.inj (hfirst hfresh)
      have := hp.wellFormed.eq_of_within hnode hloc fun mode he => by
        rw [hfree] at he; cases he
      exact absurd this heq
    · obtain ⟨rfl, -⟩ := List.cons.inj (hm.symm.trans hm')
      exact hdirs loc node hloc hnode
  · exact (Location.inside_cons m hl.inside).within_trans hwithin

/-- **A path that has been prepared** leads to where its missing names lead down to, or
nowhere. -/
theorem Lands.ends_at {d : Location} (h : fs.Reaches .followed p (.present d)) :
    d = missing.reverse ++ base := by
  have harrives := hl.arrives_later hp
  rw [Reaches, hl.moves] at h
  cases hm : missing with
  | nil =>
    rw [hm, List.append_nil] at h
    exact Spot.present.inj (h.unique harrives)
  | cons m rest =>
    rw [hm] at h
    obtain ⟨mid, b, hmid, hrest⟩ := h.of_append (List.cons_ne_nil m rest)
    obtain rfl : mid = base := Spot.present.inj (hmid.unique harrives)
    rcases hp.fresh with hfresh | ⟨m', rest', hm', hdirs⟩
    · exfalso
      rw [show done ++ m :: rest = (done ++ [m]) ++ rest by simp] at h
      by_cases hnil : rest = []
      · rw [hnil, List.append_nil] at h
        exact hl.breaks_later hp hfresh hm d h
      · obtain ⟨loc, _, hloc, -⟩ := h.of_append hnil
        exact hl.breaks_later hp hfresh hm loc hloc
    · obtain ⟨rfl, rfl⟩ := List.cons.inj (hm.symm.trans hm')
      have hstraight := hrest.straight (fun n hn => hl.proper n (hm ▸ hn))
        fun pre node hne hpre hnode => hdirs _ node (within_of_isPrefix mid hne hpre) hnode
      rcases hstraight with hs | ⟨init, x, -, hs⟩
      · exact Spot.present.inj hs
      · cases hs

/-- A path that has been prepared leads to a node below the root, or nowhere. -/
theorem Lands.ends_inside {d : Location} (h : fs.Reaches .followed p (.present d)) :
    Location.within root d = true := by
  rw [hl.ends_at hp h]
  exact Location.within_append _ hl.inside

end Lands

/-! ## Paths that keep to a directory -/

/-- If a path leads to a node, then to one in `root`. -/
def Confined (fs : FileSystem) (root : Location) (p : Path) : Prop :=
  ∀ loc, fs.Reaches .followed p (.present loc) → Location.within root loc = true

/-- With fewer nodes a path is still confined. -/
theorem Confined.anti (h : fs.Confined root p) (hin : NodesIn fs' fs)
    (hdir : fs'.workingDir = fs.workingDir) : fs'.Confined root p := by
  intro loc hloc
  refine h loc ?_
  rw [Reaches, startOf, ← hdir, ← startOf]
  exact hloc.mono hin

/-- **Making the parent that has been checked** touches nothing outside the root, and
the parent is in the root then. -/
theorem Lands.makeDirAll (hwf : fs.WellFormed) (hl : fs.Lands root p base done missing) :
    (FileSystem.makeDirAll p).Ensures fs fun _ fs' => fs'.WellFormed ∧ fs'.Confined root p ∧
      ChangedOnly (Location.Inside root) fs fs' := by
  have hkeep : (FileSystem.makeDirAll p).Keeps fun fs' => Preparing fs fs' root base missing :=
    keeps_makeDirAll fun q hq fs' d n mode hp h => hl.make hp hq mode h
  have hp := hkeep fs (.start hwf)
  exact ⟨hp.wellFormed, fun _ h => hl.ends_inside hp h, hp.changed⟩

end Stowage.FileSystem
