import Stowage.Proofs.Files.Landing

/-!
# Replacing what a path names

A file or a link is put in its place in four steps: the parent is checked and made,
what exists at the place is removed, the new node is made there, and it is written to.
This module follows these steps for a path whose parent is *confined* to a directory
(`FileSystem.Confined`).  Every step keeps to the directory, and says what the next
one needs to know:

* after the removal nothing is at the place any more (`IsPlace.clear`, `Absent`);
* so that a new file or link is made in the directory that the parent leads to
  (`IsPlace.createFile`, `IsPlace.makeLink`), and not where a link points;
* the new file has an inode of its own, so that writing to it changes nothing else
  (`Holding`).
-/

namespace Stowage

/-- The path `x` gives a proper name to a place in `p`, which continues `dir` by proper
names. -/
structure IsPlace (dir p x : Path) (last : String) : Prop where
  trim : x.IsTrim
  parent : x.parent? = some p
  moves : x.moves = p.moves ++ [last]
  name : IsName last
  absolute : x.isAbsolute = p.isAbsolute
  absolute_dir : p.isAbsolute = dir.isAbsolute
  above : ∃ names : List String, p.components = dir.components ++ names.map .name ∧
    ∀ n ∈ names, IsName n

/-- A name that has been put under a directory ends the path. -/
theorem isTrim_of_containedJoin {dir x : Path} {name : String}
    (h : dir.containedJoin name = some x) : x.IsTrim := by
  obtain ⟨names, hne, hnames, rfl⟩ := Path.containedJoin_eq_some h
  exact (Path.isTrim_ofNames hnames hne).join (Path.isAbsolute_ofNames hnames)

/-- **A name that has been put under a directory** is a place. -/
theorem isPlace_of_containedJoin {dir x : Path} {name : String} (hdir : dir ≠ .empty)
    (h : dir.containedJoin name = some x) : ∃ p last, IsPlace dir p x last := by
  obtain ⟨names, hne, hnames, rfl⟩ := Path.containedJoin_eq_some h
  have habs := Path.isAbsolute_ofNames hnames
  have hcomps := Path.components_join hdir habs
  rw [Path.travel_ofNames hnames] at hcomps
  obtain ⟨init, last, rfl⟩ : ∃ init last, names = init ++ [last] :=
    ⟨_, _, (List.dropLast_concat_getLast hne).symm⟩
  rw [List.map_append, List.map_singleton, ← List.append_assoc] at hcomps
  cases hparent : (dir.join (.ofNames (init ++ [last]))).parent? with
  | none =>
    have hmoves := Path.moves_of_components (hcomps.trans (List.append_assoc ..))
    rw [Path.moves_of_parent?_eq_none hparent] at hmoves
    exact absurd hmoves.symm (by simp [Component.isStep])
  | some p =>
    obtain ⟨c, -, hc, -⟩ := Path.components_parent? hparent
    obtain ⟨hp, -⟩ := List.append_inj' (hcomps.symm.trans hc) rfl
    have hcp : (dir.join (.ofNames (init ++ [last]))).components =
      p.components ++ [.name last] := by
      rw [hcomps, hp]
    have habsp := Path.isAbsolute_parent? hparent
    exact ⟨p, last,
      { trim := (Path.isTrim_ofNames hnames hne).join habs
        parent := hparent
        moves := Path.moves_of_components hcp
        name := hnames last (by simp)
        absolute := habsp.symm
        absolute_dir := habsp.trans (Path.isAbsolute_join hdir habs)
        above := ⟨init, hp.symm, fun n hn => hnames n (List.mem_append_left _ hn)⟩ }⟩

namespace FileSystem

open Result Call

variable {fs fs' : FileSystem} {root : Location} {dir p x q : Path} {last : String}

/-- Nothing is where a call would make or remove a name. -/
def Absent (fs : FileSystem) (x : Path) : Prop := ∀ loc, fs.locateName x ≠ .ok (.present loc)

theorem Absent.anti (h : fs.Absent x) (hin : NodesIn fs' fs)
    (hdir : fs'.workingDir = fs.workingDir) : fs'.Absent x := by
  intro loc hloc
  obtain ⟨hc, hl⟩ := locateName_eq_ok.mp hloc
  rw [startOf, hdir, ← startOf] at hl
  exact h loc (locateName_eq_ok.mpr ⟨hc, hl.mono hin⟩)

/-- A state in which a place is ready for something new. -/
structure Ready (fs : FileSystem) (root : Location) (p x : Path) : Prop where
  wellFormed : fs.WellFormed
  confined : fs.Confined root p
  absent : fs.Absent x

theorem Quiet.changedOnly {P : Location → Prop} (h : Quiet fs fs') : ChangedOnly P fs fs' := by
  obtain ⟨files, rfl⟩ := h
  exact ⟨⟨[], rfl, by simp, fun loc _ => by cases loc <;> rfl⟩, rfl⟩

theorem Quiet.wellFormed (h : Quiet fs fs') (hwf : fs.WellFormed) : fs'.WellFormed := by
  obtain ⟨files, rfl⟩ := h
  refine ⟨fun e he name dir heq => ?_, hwf.stored, hwf.working⟩
  rw [isDirectoryAt_openFiles]
  exact hwf.rooted e he name dir heq

theorem Ready.quiet (h : fs.Ready root p x) (hq : Quiet fs fs') : fs'.Ready root p x := by
  obtain ⟨files, rfl⟩ := hq
  have hin : NodesIn { fs with openFiles := files } fs := fun loc node hn => by
    rwa [node?_openFiles] at hn
  exact ⟨Quiet.wellFormed ⟨files, rfl⟩ h.wellFormed, h.confined.anti hin rfl,
    h.absent.anti hin rfl⟩

/-- All that has been touched lies inside a directory. -/
abbrev ChangedIn (root : Location) (fs fs' : FileSystem) : Prop :=
  ChangedOnly (Location.Inside root) fs fs'

end FileSystem

open FileSystem Result Call

namespace IsPlace
variable {fs fs' : FileSystem} {root : Location} {dir p x q : Path} {last : String}
  (hx : IsPlace dir p x last)
include hx

/-- **The parent of a place**, once checked, is made without leaving the root. -/
theorem makeParent (hwf : fs.WellFormed) (hdir : fs.Canonical dir root)
    (h : fs.resolveUnder root.path p = .ok (some q)) :
    (makeDirAll p).Ensures fs fun _ fs' =>
      fs'.WellFormed ∧ fs'.Confined root p ∧ ChangedIn root fs fs' := by
  obtain ⟨names, hcomps, hnames⟩ := hx.above
  obtain ⟨base, done, missing, hl⟩ :=
    lands_of_resolveUnder hwf hdir hx.parent hcomps hnames hx.absolute_dir h
  exact hl.makeDirAll hwf

/-- What is at a place is in the directory that its parent leads to. -/
theorem spot (hc : fs.Confined root p) {s : Spot} (h : fs.Reaches .kept x s) :
    ∃ d, Location.within root d = true ∧ fs.Reaches .followed p (.present d) ∧
      (s = .vacant d last ∨ s = .present (last :: d) ∧ ∃ node, fs.node? (last :: d) =
        some node) := by
  rw [Reaches, hx.moves, startOf_congr hx.absolute] at h
  obtain ⟨d, _, hd, hs⟩ := h.of_append (by simp)
  exact ⟨d, hc d hd, hd, hs.of_single hx.name⟩

theorem absent_of_not_present (h : fs.isPresent x = false) : fs.Absent x := by
  intro loc hloc
  have hfind : fs.find false x = .ok loc := by
    obtain ⟨hc, hl⟩ := locateName_eq_ok.mp hloc
    exact find_eq_ok.mpr (locate_eq_ok.mpr ⟨hc, hx.trim.walkSteps.symm ▸ hl⟩)
  rw [isPresent, hfind] at h
  cases h

/-- **Removing what is at a place** leaves the place ready. -/
theorem clear (hwf : fs.WellFormed) (hc : fs.Confined root p) :
    (removeFile x).Ensures fs fun r fs' =>
      fs'.WellFormed ∧ ChangedIn root fs fs' ∧ (r = .ok () → fs'.Ready root p x) := by
  unfold Call.Ensures
  rcases removeFile_apply x fs with ⟨e, h⟩ | ⟨loc, hloc, hdir, h⟩
  · rw [h]
    exact ⟨hwf, .refl fs, fun he => by cases he⟩
  rw [h]
  obtain ⟨d, hd, hreach, hs⟩ := hx.spot hc
    (reaches_of_leads hx.trim (by simp) (locateName_eq_ok.mp hloc).2)
  obtain ⟨hs, -⟩ := hs.resolve_left (by simp)
  cases hs
  have hconf : (fs.cut (last :: d)).Confined root p := hc.anti (nodesIn_cut fs _) rfl
  have hplain (mode : Mode) : fs.node? (last :: d) ≠ some (.directory mode) := fun he => by
    rw [isDirectoryAt_iff.mpr ⟨mode, he⟩] at hdir
    cases hdir
  refine ⟨hwf.cut _, changedOnly_cut fun l hl => ?_, fun _ => ⟨hwf.cut _, hconf, fun l hl => ?_⟩⟩
  · rw [mem_locationsUnder hwf hplain hl]
    exact Location.inside_cons last hd
  · obtain ⟨d', -, hreach', hs'⟩ := hx.spot hconf
      (reaches_of_leads hx.trim (by simp) (locateName_eq_ok.mp hl).2)
    obtain ⟨-, node, hnode⟩ := hs'.resolve_left (by rintro he; cases he)
    obtain rfl : d' = d := Spot.present.inj
      ((Leads.mono hreach' (nodesIn_cut fs _)).unique hreach)
    rw [node?_cut_of_within fs (Location.within_refl _)] at hnode
    cases hnode

/-- A free name at a place is in the directory that the parent leads to. -/
theorem free (hr : fs.Ready root p x) {d : Location} {n : String}
    (h : fs.locateName x = .ok (.vacant d n)) :
    n = last ∧ Location.within root d = true ∧ fs.Reaches .followed p (.present d) ∧
      (∃ mode, fs.node? d = some (.directory mode)) ∧ fs.node? (last :: d) = none := by
  have hreach := reaches_of_locateName h
  obtain ⟨d', hd, hp, hs⟩ := hx.spot hr.confined hreach
  cases hs.resolve_right (by rintro ⟨he, -⟩; cases he)
  obtain ⟨hdir, hfree⟩ := hreach.of_vacant
  exact ⟨rfl, hd, hp, hdir, hfree⟩

/-- **A link is made at its place.** -/
theorem makeLink (hr : fs.Ready root p x) (target : String) :
    (FileSystem.makeLink target x).Ensures fs fun _ fs' =>
      fs'.WellFormed ∧ ChangedIn root fs fs' := by
  unfold Call.Ensures
  rcases makeLink_apply target x fs with ⟨e, h⟩ | ⟨d, n, hloc, h⟩
  · rw [h]
    exact ⟨hr.wellFormed, .refl fs⟩
  · rw [h]
    obtain ⟨rfl, hd, -, hdir, hfree⟩ := hx.free hr hloc
    exact ⟨hr.wellFormed.put_of_vacant hx.name hdir hfree (by simp),
      changedOnly_put _ (Location.inside_cons _ hd)⟩

end IsPlace

namespace FileSystem

/-- A place holds a file whose inode is used in the directory only. -/
structure Holding (fs : FileSystem) (root : Location) (p : Path) (last : String) (n : Nat) :
    Prop where
  wellFormed : fs.WellFormed
  place : ∃ d, Location.within root d = true ∧ fs.Reaches .followed p (.present d) ∧
    fs.node? (last :: d) = some (.file n)
  owned : ∀ loc ∈ fs.locationsOf n, Location.Inside root loc

variable {fs : FileSystem} {root : Location} {p x : Path} {last : String} {n : Nat}

/-- **Changing the file at a place** changes nothing outside the directory. -/
theorem Holding.updateInode (h : fs.Holding root p last n) (f : Inode → Inode) :
    (fs.updateInode n f).Holding root p last n ∧ ChangedIn root fs (fs.updateInode n f) := by
  refine ⟨⟨h.wellFormed.updateInode n f, ?_, h.owned⟩, changedOnly_updateInode f h.owned⟩
  obtain ⟨d, hd, hreach, hnode⟩ := h.place
  refine ⟨d, hd, Leads.mono hreach fun loc node hn => ?_, ?_⟩
  · rwa [node?_updateInode]
  · rwa [node?_updateInode]

theorem Holding.quiet (h : fs.Holding root p last n) {fs' : FileSystem} (hq : Quiet fs fs') :
    fs'.Holding root p last n := by
  obtain ⟨files, rfl⟩ := hq
  obtain ⟨d, hd, hreach, hnode⟩ := h.place
  refine ⟨Quiet.wellFormed ⟨files, rfl⟩ h.wellFormed,
    ⟨d, hd, Leads.mono hreach fun loc node hn => ?_, ?_⟩, h.owned⟩
  · rwa [node?_openFiles]
  · rwa [node?_openFiles]

/-- Adding bytes to the file at a place changes nothing outside the directory. -/
theorem Holding.append {ε : Type} (h : fs.Holding root p last n) (bytes : Bytes) :
    (FileSystem.append n bytes : Call ε Unit).Ensures fs fun _ fs' =>
      fs'.Holding root p last n ∧ ChangedIn root fs fs' := by
  unfold Call.Ensures
  rcases append_apply (ε := ε) n bytes fs with he | ⟨f, he⟩
  · rw [he]
    exact ⟨h, .refl fs⟩
  · rw [he]
    exact h.updateInode f

end FileSystem

namespace IsPlace
variable {fs fs' : FileSystem} {root : Location} {dir p x q : Path} {last : String} {n : Nat}
  (hx : IsPlace dir p x last)
include hx

/-- **A file is made at its place**, with an inode of its own. -/
theorem createFile (hr : fs.Ready root p x) (mode : Mode) :
    (FileSystem.createFile x mode).Ensures fs fun r fs' =>
      fs'.WellFormed ∧ ChangedIn root fs fs' ∧ ∀ n, r = .ok n → fs'.Holding root p last n := by
  unfold Call.Ensures
  rcases createFile_apply x mode fs with ⟨e, h⟩ | ⟨loc, n, hloc, -, h⟩ | ⟨d, n, hloc, -, h⟩
  · rw [h]
    exact ⟨hr.wellFormed, .refl fs, fun n he => by cases he⟩
  · -- a file that is there already would have been in the way
    obtain ⟨hc, hl⟩ := locate_eq_ok.mp hloc
    rw [hx.trim.walkSteps] at hl
    rcases hl.kept with ⟨loc', hk⟩ | hk
    · exact absurd (locateName_eq_ok.mpr ⟨hc, hk⟩) (hr.absent loc')
    · exact absurd (locateName_eq_ok.mpr ⟨hc, hk⟩) (hr.absent loc)
  · rw [h]
    have hname : fs.locateName x = .ok (.vacant d n) := by
      obtain ⟨hc, hl⟩ := locate_eq_ok.mp hloc
      rw [hx.trim.walkSteps] at hl
      rcases hl.kept with ⟨loc', hk⟩ | hk
      · exact absurd (locateName_eq_ok.mpr ⟨hc, hk⟩) (hr.absent loc')
      · exact locateName_eq_ok.mpr ⟨hc, hk⟩
    obtain ⟨rfl, hd, hreach, hdir, hfree⟩ := hx.free hr hname
    have hadd := node?_addInode fs ⟨mode, []⟩
    have hin : NodesIn fs ((fs.addInode ⟨mode, []⟩).2.put (n :: d) (.file fs.inodes.length)) :=
      NodesIn.trans (fun loc node hn => by rwa [hadd]) (nodesIn_put (by rwa [hadd]) _)
    have hwf' : ((fs.addInode ⟨mode, []⟩).2.put (n :: d) (.file fs.inodes.length)).WellFormed := by
      refine (hr.wellFormed.addInode _).put_of_vacant hx.name ?_ ?_ ?_
      · rwa [hadd]
      · rwa [hadd]
      · intro m he
        cases he
        show _ < (fs.inodes ++ [_]).length
        simp
    have hinside := Location.inside_cons n hd
    refine ⟨hwf', (changedOnly_addInode hr.wellFormed _).trans (changedOnly_put _ hinside), ?_⟩
    intro m he
    cases he
    refine ⟨hwf', ⟨d, hd, Leads.mono hreach hin, node?_put_self ..⟩, fun loc hloc => ?_⟩
    -- no node of the file system before refers to the new inode
    obtain ⟨e, he, rfl⟩ := List.mem_map.mp hloc
    obtain ⟨he, hfile⟩ := List.mem_filter.mp he
    rcases List.mem_cons.mp he with rfl | he
    · exact hinside
    · have := hr.wellFormed.stored e (List.mem_filter.mp he).1 _ (by simpa using hfile)
      exact absurd this (Nat.lt_irrefl _)

/-- Giving permissions to the file at its place changes nothing outside the directory. -/
theorem setMode (h : fs.Holding root p last n) (mode : Mode) :
    (FileSystem.setMode x mode).Ensures fs fun _ fs' =>
      fs'.WellFormed ∧ ChangedIn root fs fs' := by
  unfold Call.Ensures
  rcases setMode_apply x mode fs with ⟨e, he⟩ | ⟨loc, hloc, he⟩
  · rw [he]
    exact ⟨h.wellFormed, .refl fs⟩
  · rw [he]
    obtain ⟨d, hd, hreach, hnode⟩ := h.place
    have hl := reaches_of_walkSteps (locate_eq_ok.mp (find_eq_ok.mp hloc)).2
    rw [Reaches, hx.moves, startOf_congr hx.absolute] at hl
    obtain ⟨mid, _, hmid, hs⟩ := hl.of_append (by simp)
    obtain rfl : mid = d := Spot.present.inj (hmid.unique hreach)
    obtain rfl := hs.of_single_plain hx.name hnode (by simp)
    rw [setModeAt, hnode]
    obtain ⟨hh, hch⟩ := h.updateInode ({ · with mode })
    exact ⟨hh.wellFormed, hch⟩

/-- Removing the file at its place changes nothing outside the directory. -/
theorem removeFile (h : fs.Holding root p last n) :
    (FileSystem.removeFile x).Ensures fs fun _ fs' =>
      fs'.WellFormed ∧ ChangedIn root fs fs' := by
  obtain ⟨d, hd, hreach, -⟩ := h.place
  have hc : fs.Confined root p := fun loc hloc => by
    rwa [Spot.present.inj (hloc.unique hreach)]
  exact (hx.clear h.wellFormed hc).mono fun r fs' h => ⟨h.1, h.2.1⟩

/-- **Copying a file to its place** changes nothing outside the directory. -/
theorem copyFile (hr : fs.Ready root p x) (source : Path) :
    (FileSystem.copyFile source x).Ensures fs fun _ fs' =>
      fs'.WellFormed ∧ ChangedIn root fs fs' := by
  refine Ensures.bind (R := fun _ fs' => Quiet fs fs') ((isQuiet_openFile source).apply fs)
    (fun h fs₁ hq => Ensures.ask ?_) (fun e fs₁ hq => ⟨(hr.quiet hq).wellFormed, hq.changedOnly⟩)
  have hr₁ := hr.quiet hq
  have hq₁ : ChangedIn root fs fs₁ := hq.changedOnly
  split
  · refine Ensures.ask ?_
    refine (hx.createFile hr₁ _).bind (fun m fs₂ h₂ => Ensures.change (Ensures.ask ?_))
      fun e fs₂ h₂ => ⟨h₂.1, hq₁.trans h₂.2.1⟩
    obtain ⟨h₃, hc₃⟩ := (h₂.2.2 m rfl).updateInode ({ · with mode := _ })
    exact (h₃.append _).mono fun r fs₄ h₄ => ⟨h₄.1.wellFormed,
      ((hq₁.trans h₂.2.1).trans hc₃).trans h₄.2⟩
  · exact ensures_throw ⟨hr₁.wellFormed, hq₁⟩

end IsPlace
end Stowage
