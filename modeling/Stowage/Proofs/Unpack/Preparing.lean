import Stowage.Proofs.Files.Retention
import Stowage.Proofs.Unpack.Containment

/-!
# Making a place ready

Before something is put under a path, the directory and the parent of the path are made, and
what stands at the place is removed.  This module says what each of these steps leaves, be it
the last one or not.

Making directories adds directories and nothing else (`AddsDirectories`).  What may come as a
surprise is that a new directory can stand under the path itself: a directory whose path has
`..` in it is made name by name, and one of the names may be that of the path.  Making the
parent never does this (`IsPlace.not_madeFor`), so that whatever is new under the path belongs
to the directory (`Prepared.target`).

`ensures_placing` puts the steps together.  A call that follows them fails with the
directories made and nothing removed, or it goes on from a place that is ready (`Readied`).
-/

namespace Stowage

open FileSystem Result Call

variable {fs fs' fs'' fs₁ fs₂ : FileSystem} {root loc : Location} {dir p x : Path}
  {last : String} {ε : Type}

namespace FileSystem

/-! ## Making directories -/

/-- **Nothing has happened but that directories were made.** -/
structure AddsDirectories (fs fs' : FileSystem) : Prop
    extends Retains (fun _ => False) fs fs' where
  fresh : ∀ loc node, fs'.node? loc = some node → fs.node? loc = none →
    ∃ mode, node = .directory mode

namespace AddsDirectories

theorem refl (fs : FileSystem) : AddsDirectories fs fs :=
  ⟨.refl fs, fun loc node hnode hfree => by rw [hnode] at hfree; cases hfree⟩

theorem trans (h : AddsDirectories fs fs') (h' : AddsDirectories fs' fs'') :
    AddsDirectories fs fs'' where
  toRetains := h.toRetains.trans h'.toRetains
  fresh loc node hnode hfree := by
    cases hnode' : fs'.node? loc with
    | none => exact h'.fresh loc node hnode hnode'
    | some node' =>
      obtain rfl := Option.some.inj ((h'.nodesIn loc node' hnode').symm.trans hnode)
      exact h.fresh loc node' hnode' hfree

/-- **Making a directory with its ancestors** adds directories. -/
theorem makeDirAll (p : Path) (fs : FileSystem) :
    AddsDirectories fs ((FileSystem.makeDirAll p).apply fs).2 := by
  refine keeps_makeDirAll (I := AddsDirectories fs) ?_ fs (.refl fs)
  intro q _ fs' dir name mode h hloc
  have hfree := (locateName_eq_ok.mp hloc).2.of_vacant.2
  refine ⟨h.toRetains.put hfree _, fun loc node hnode hfree' => ?_⟩
  by_cases hne : loc = name :: dir
  · rw [hne, node?_put_self] at hnode
    exact ⟨mode, (Option.some.inj hnode).symm⟩
  · rw [node?_put_of_ne _ _ hne] at hnode
    exact h.fresh loc node hnode hfree'

/-- Below what is new there are directories only. -/
theorem directory_below (h : AddsDirectories fs fs') (hwf : fs.WellFormed) {below : Location}
    {node : Node} (hfree : fs.node? loc = none) (hwithin : Location.within loc below = true)
    (hnode : fs'.node? below = some node) : ∃ mode, node = .directory mode :=
  h.fresh below node hnode (hwf.node?_of_within hfree hwithin)

end AddsDirectories

/-- The file system in which the directories for a path below `dir` have been made. -/
def preparedFor (fs : FileSystem) (dir x : Path) : FileSystem :=
  ((makeDirAll (x.parent?.getD .empty)).apply ((makeDirAll dir).apply fs).2).2

end FileSystem

/-- **Making the parent of a place does not make what the place names.** -/
theorem IsPlace.not_madeFor (hx : IsPlace dir p x last) (hwf : fs.WellFormed)
    (hdir : fs.Canonical dir root) (hadds : AddsDirectories fs fs')
    (hloc : fs'.locateName x = .ok (.present loc)) : ¬fs.MadeFor p fs' loc := by
  rintro ⟨hfree, -, q, hq, hfind⟩
  -- the place is in the directory that its parent leads to
  obtain ⟨d, -, hd, hs⟩ := hx.spot (fun l _ => Location.within_iff.mpr List.nil_suffix)
    (reaches_of_leads hx.trim (by simp) (locateName_eq_ok.mp hloc).2)
  obtain ⟨hs, -⟩ := hs.resolve_left (by simp)
  cases hs
  have hreaches : fs'.Reaches .followed q (.present (last :: d)) :=
    reaches_of_walkSteps (locate_eq_ok.mp (find_eq_ok.mp hfind)).2
  obtain ⟨⟨cs, hcs⟩, habs⟩ := Path.components_ancestor hq
  obtain ⟨names, hcomps, hnames⟩ := hx.above
  rcases List.append_eq_append_iff.mp (hcs.symm.trans hcomps) with
    ⟨as, has, -⟩ | ⟨as, -, has⟩
  · -- an ancestor of the directory is not missing
    obtain ⟨mid, hmid, node, hnode, -⟩ :=
      hdir.passes hwf has (habs.trans hx.absolute_dir)
    rw [Reaches, startOf, ← hadds.workingDir, ← startOf] at hmid
    obtain rfl := Spot.present.inj ((hmid.mono hadds.nodesIn).unique hreaches)
    rw [hfree] at hnode
    cases hnode
  · -- what is new leads straight down to the parent, and so it is not below the parent
    obtain ⟨above, below, rfl, rfl, rfl⟩ := List.map_eq_append_iff.mp has
    have hmoves : p.moves = q.moves ++ below := Path.moves_of_names hcs
    rw [Reaches, hmoves, ← startOf_congr habs] at hd
    have hdown : d = below.reverse ++ last :: d := by
      by_cases hnil : below = []
      · subst hnil
        rw [List.append_nil] at hd
        exact Spot.present.inj (hd.unique hreaches)
      obtain ⟨mid, _, hmid, hrest⟩ := hd.of_append hnil
      obtain rfl : mid = last :: d := Spot.present.inj (hmid.unique hreaches)
      rcases hrest.straight (fun n hn => hnames n (List.mem_append_right _ hn))
          fun pre node _ _ hnode => hadds.directory_below hwf hfree
            (Location.within_append _ (Location.within_refl _)) hnode with
        hs | ⟨_, _, _, hs⟩
      · exact Spot.present.inj hs
      · cases hs
    have hlength := congrArg List.length hdown
    simp at hlength
    omega

namespace FileSystem

/-- **Directories have been made for a path.**  Under the path itself nothing is new, unless
it was made with the directory. -/
structure Prepared (fs : FileSystem) (dir x : Path) (fs' : FileSystem) : Prop
    extends AddsDirectories fs fs' where
  wellFormed : fs'.WellFormed
  target : ∀ loc, fs'.locateName x = .ok (.present loc) →
    fs'.entry? loc = fs.entry? loc ∨ fs.MadeFor dir ((makeDirAll dir).apply fs).2 loc

/-- What making the directory has left is as it was, or it was made for the directory. -/
theorem entry?_makeDirAll (hwf : fs.WellFormed) (dir : Path) (loc : Location) :
    FileSystem.entry? ((makeDirAll dir).apply fs).2 loc = fs.entry? loc ∨
      fs.MadeFor dir ((makeDirAll dir).apply fs).2 loc := by
  obtain ⟨-, -, hchanged⟩ := makeDirAll_ensures hwf dir
  by_cases hmade : fs.MadeFor dir ((makeDirAll dir).apply fs).2 loc
  · exact .inr hmade
  · exact .inl (hchanged.entry? hmade)

/-- Making the directory prepares for every path. -/
theorem prepared_makeDirAll (hwf : fs.WellFormed) (dir x : Path) :
    fs.Prepared dir x ((makeDirAll dir).apply fs).2 where
  toAddsDirectories := .makeDirAll dir fs
  wellFormed := (makeDirAll_ensures hwf dir).1
  target loc _ := entry?_makeDirAll hwf dir loc

/-- Making the parent after the directory prepares for the place. -/
theorem prepared_preparedFor (hwf : fs.WellFormed) (hx : IsPlace dir p x last)
    (hdir : ((makeDirAll dir).apply fs).2.Canonical dir root) :
    fs.Prepared dir x (fs.preparedFor dir x) := by
  have hmade := prepared_makeDirAll hwf dir x
  have hadds := AddsDirectories.makeDirAll p ((makeDirAll dir).apply fs).2
  rw [preparedFor, hx.parent, Option.getD_some]
  refine ⟨hmade.toAddsDirectories.trans hadds, (makeDirAll_ensures hmade.wellFormed p).1,
    fun loc hloc => ?_⟩
  rw [(entry?_makeDirAll hmade.wellFormed p loc).resolve_right
    (hx.not_madeFor hmade.wellFormed hdir hadds hloc)]
  exact entry?_makeDirAll hwf dir loc

end FileSystem

/-! ## Clearing a place -/

/-- **A place is cleared**: nothing changes, or what is there, which is no directory, is
removed.  The strict policy does not remove. -/
def Cleared (fs : FileSystem) (x : Path) (strict : Bool) (fs' : FileSystem) : Prop :=
  fs' = fs ∨ strict = false ∧ ∃ loc, fs.locateName x = .ok (.present loc) ∧
    fs.isDirectoryAt loc = false ∧ fs' = fs.cut loc

/-- Clearing a place removes nothing if it fails. -/
theorem ensures_cleared (x : Path) (strict : Bool) (f : FileError → ε) (e : ε)
    (fs : FileSystem) :
    Call.Ensures (do
      if ← ask (·.isPresent x) then
        if strict then (throw e : Call ε Unit)
        (removeFile x).withError f) fs fun
      | .ok _, fs' => Cleared fs x strict fs'
      | .error err, fs' => fs' = fs ∧ (err = e ∨ ∃ cause, err = f cause) := by
  refine Ensures.ask ?_
  split
  · cases strict with
    | true => exact ensures_throw ⟨rfl, .inl rfl⟩
    | false =>
      show Call.Ensures ((removeFile x).withError f) fs _
      unfold Call.Ensures
      rw [apply_withError]
      rcases removeFile_apply x fs with ⟨e, h⟩ | ⟨loc, hloc, hdir, h⟩
      · rw [h]
        exact ⟨rfl, .inr ⟨e, rfl⟩⟩
      · rw [h]
        exact .inr ⟨rfl, loc, hloc, hdir, rfl⟩
  · exact ensures_pure (.inl rfl)

namespace Cleared
variable {strict : Bool}

theorem eq_of_strict (h : Cleared fs x true fs') : fs' = fs := h.resolve_right (by simp)

/-- What is lost is what the place has named. -/
theorem retains (hwf : fs.WellFormed) (h : Cleared fs x strict fs') :
    ∃ loc, RetainsBut loc fs fs' := by
  obtain rfl | ⟨-, loc, -, hdir, rfl⟩ := h
  · exact ⟨[], .refl fs'⟩
  · exact ⟨loc, (Retains.refl fs).cut hwf hdir (.inl rfl)⟩

end Cleared

/-! ## Everything together -/

/-- **A place has been made ready**: the directories for it have been made, and what stood
there is gone. -/
structure Readied (fs : FileSystem) (dir x : Path) (strict : Bool) (fs' : FileSystem) :
    Prop where
  place : ∃ p last, IsPlace dir p x last
  prepared : fs.Prepared dir x (fs.preparedFor dir x)
  cleared : Cleared (fs.preparedFor dir x) x strict fs'
  wellFormed : fs'.WellFormed
  absent : fs'.Absent x

/-- Checking a parent and making it leaves everything, or makes the parent. -/
theorem ensures_parent (root p : Path) (f : FileError → ε) (e : ε) (fs : FileSystem) :
    Call.Ensures (do
      if (← (askResult (·.resolveUnder root p)).withError f).isNone then
        (throw e : Call ε Unit)
      (makeDirAll p).withError f) fs fun
      | .ok _, fs' => fs' = ((makeDirAll p).apply fs).2
      | .error err, fs' => (fs' = fs ∨ fs' = ((makeDirAll p).apply fs).2) ∧
        (err = e ∨ ∃ cause, err = f cause) := by
  refine Ensures.askResult_withError (fun answer _ => ?_)
    fun cause _ => ⟨.inl rfl, .inr ⟨cause, rfl⟩⟩
  split
  · exact ensures_throw ⟨.inl rfl, .inl rfl⟩
  · show Call.Ensures ((makeDirAll p).withError f) fs _
    unfold Call.Ensures
    rw [apply_withError]
    cases ((makeDirAll p).apply fs).1 with
    | ok u => rfl
    | error cause => exact ⟨.inr rfl, .inr ⟨cause, rfl⟩⟩

/-- **Making a directory, its place for something and the place free** fails with the
directories made, or goes on from a place that is ready. -/
theorem ensures_placing {Q : Except ε Path → FileSystem → Prop} {name : String}
    (hwf : fs.WellFormed) (hplace : dir.containedJoin name = some x) (strict : Bool)
    (f : FileError → ε) (e e' : ε) {prepare : Path → Call ε Unit} {clear : Call ε Unit}
    {rest : Path → Call ε Path}
    (hprepare : ∀ root p, x.parent? = some p → prepare root = do
      if (← (askResult (·.resolveUnder root p)).withError f).isNone then
        (throw e : Call ε Unit)
      (makeDirAll p).withError f)
    (hclear : clear = do
      if ← ask (·.isPresent x) then
        if strict then (throw e' : Call ε Unit)
        (removeFile x).withError f)
    (hearly : ∀ err fs', (err = e ∨ err = e' ∨ ∃ cause, err = f cause) →
      fs.Prepared dir x fs' → Q (.error err) fs')
    (hrest : ∀ fs' root, Readied fs dir x strict fs' → (rest root).Ensures fs' Q) :
    Call.Ensures (do
      (makeDirAll dir).withError f
      let root ← (askResult (·.canonicalize dir)).withError f
      prepare root
      clear
      rest root) fs Q := by
  have hmade := prepared_makeDirAll hwf dir x
  have hfirst : Call.Ensures ((makeDirAll dir).withError f) fs fun r fs₁ =>
      fs₁ = ((makeDirAll dir).apply fs).2 ∧ ∀ err, r = .error err → ∃ cause, err = f cause :=
    ⟨rfl, fun err h => let ⟨cause, _, he⟩ := mapError_eq_error.mp h; ⟨cause, he.symm⟩⟩
  refine hfirst.bind ?_ ?_
  rotate_left
  · rintro err fs₁ ⟨rfl, herr⟩
    exact hearly err _ (.inr (.inr (herr err rfl))) hmade
  rintro - fs₁ ⟨hfs₁, -⟩
  subst hfs₁
  refine Ensures.askResult_withError (fun q hq => ?_)
    fun cause _ => hearly _ _ (.inr (.inr ⟨cause, rfl⟩)) hmade
  obtain ⟨root, rfl, hroot⟩ := canonicalize_eq_ok.mp hq
  obtain ⟨p, last, hx⟩ := isPlace_of_containedJoin hroot.ne_empty hplace
  have hprepared := prepared_preparedFor hwf hx hroot
  have hparent : fs.preparedFor dir x = ((makeDirAll p).apply ((makeDirAll dir).apply fs).2).2 := by
    rw [preparedFor, hx.parent, Option.getD_some]
  rw [hprepare _ p hx.parent, hclear]
  -- once the parent has been made, the place is confined
  refine ((Archive.parentMade_ensures hx hmade.wellFormed hroot f e).and
    (ensures_parent root.path p f e _)).bind ?_ ?_
  rotate_left
  · rintro err fs₃ ⟨-, hfs₃, herr⟩
    refine hearly err fs₃ (herr.imp_right .inr) ?_
    rcases hfs₃ with rfl | rfl
    · exact hmade
    · exact hparent ▸ hprepared
  rintro ⟨⟩ fs₃ ⟨⟨-, -, hconfined⟩, hfs₃⟩
  rw [← hparent] at hfs₃
  subst hfs₃
  refine ((Archive.cleared_ensures hx hprepared.wellFormed (hconfined rfl) strict f e').and
    (ensures_cleared x strict f e' _)).bind ?_ ?_
  · rintro ⟨⟩ fs₄ ⟨⟨-, -, hready⟩, hcleared⟩
    obtain ⟨hwf₄, -, habsent⟩ := hready rfl
    exact hrest fs₄ root.path ⟨⟨p, last, hx⟩, hprepared, hcleared, hwf₄, habsent⟩
  · rintro err fs₄ ⟨-, rfl, herr⟩
    exact hearly err _ (.inr herr) hprepared

end Stowage
