import Stowage.Proofs.Files.Below
import Stowage.Proofs.Files.Links
import Stowage.Proofs.Unpack.Runs

/-!
# Unpacking and the links it makes

A link is checked when it is made.  This module follows the links of a run that starts
in an empty directory.

Each call makes links that were accepted, and no others (`perform_checked`).  If they are
settled when they are made, then all links below the directory are firm after every call,
and each of them leads into the directory, or nowhere (`links_lead_inside`).

A link that is accepted and not settled can be turned by a later one that is accepted as
well (`later_link_turns_earlier`): its check takes `..` against a name that is missing,
and the later link gives this name a place of its own.
-/

namespace Stowage

open FileSystem Result Call

namespace FileSystem

variable {fs fs' fs'' fs₀ : FileSystem} {root dir loc : Location} {ε α : Type}

/-! ## Calls that make no link -/

/-- **No directory is removed and no link is made.** -/
structure Steady (fs fs' : FileSystem) : Prop where
  wellFormed : fs'.WellFormed
  directories : ∀ loc, fs.isDirectoryAt loc = true → fs'.isDirectoryAt loc = true
  links : ∀ loc target, fs'.node? loc = some (.link target) → fs.node? loc = some (.link target)

namespace Steady

theorem refl (hwf : fs.WellFormed) : Steady fs fs := ⟨hwf, fun _ h => h, fun _ _ h => h⟩

theorem trans (h : Steady fs fs') (h' : Steady fs' fs'') : Steady fs fs'' :=
  ⟨h'.wellFormed, fun loc hd => h'.directories loc (h.directories loc hd),
    fun loc target hl => h.links loc target (h'.links loc target hl)⟩

/-- What holds the same nodes is steady. -/
theorem of_nodes (hwf : fs'.WellFormed) (h : ∀ loc, fs'.node? loc = fs.node? loc) :
    Steady fs fs' := by
  refine ⟨hwf, fun loc hd => ?_, fun loc target hl => by rwa [← h]⟩
  rwa [isDirectoryAt, directoryMode?, h]

theorem of_quiet (hwf : fs.WellFormed) (hq : Quiet fs fs') : Steady fs fs' := by
  have hwf' := hq.wellFormed hwf
  obtain ⟨files, rfl⟩ := hq
  exact .of_nodes hwf' (node?_openFiles fs files)

/-- At a free name, anything but a link may be put. -/
theorem put_free {name : String} {dir : Location} {node : Node} (hwf : fs.WellFormed)
    (hname : IsName name) (hdir : ∃ mode, fs.node? dir = some (.directory mode))
    (hfree : fs.node? (name :: dir) = none) (hfile : ∀ n, node = .file n → n < fs.inodes.length)
    (hlink : ∀ target, node ≠ .link target) : Steady fs (fs.put (name :: dir) node) := by
  refine ⟨hwf.put_of_vacant hname hdir hfree hfile, fun loc hd => ?_, fun loc target hl => ?_⟩
  · obtain ⟨mode, hmode⟩ := isDirectoryAt_iff.mp hd
    exact isDirectoryAt_iff.mpr ⟨mode, nodesIn_put hfree node _ _ hmode⟩
  · by_cases heq : loc = name :: dir
    · rw [heq, node?_put_self] at hl
      exact absurd (Option.some.inj hl) (hlink target)
    · rwa [node?_put_of_ne fs node heq] at hl

/-- What is removed is no directory, so that nothing lies below it. -/
theorem cut (hwf : fs.WellFormed) (hloc : fs.isDirectoryAt loc = false) :
    Steady fs (fs.cut loc) := by
  refine ⟨hwf.cut loc, fun l hd => ?_, fun l target hl => nodesIn_cut fs loc _ _ hl⟩
  cases hw : Location.within loc l with
  | false => rwa [isDirectoryAt, directoryMode?, node?_cut_of_not_within fs hw]
  | true =>
    obtain ⟨mode, hmode⟩ := isDirectoryAt_iff.mp hd
    have heq := hwf.eq_of_within hmode hw fun mode he => by
      rw [isDirectoryAt_iff.mpr ⟨mode, he⟩] at hloc
      cases hloc
    rw [heq, hloc] at hd
    cases hd

theorem updateInode (hwf : fs.WellFormed) (n : Nat) (f : Inode → Inode) :
    Steady fs (fs.updateInode n f) :=
  .of_nodes (hwf.updateInode n f) (node?_updateInode fs n f)

theorem addInode (hwf : fs.WellFormed) (content : Inode) :
    Steady fs (fs.addInode content).2 :=
  .of_nodes (hwf.addInode content) (node?_addInode fs content)

/-- New permissions leave a directory a directory. -/
theorem setModeAt (hwf : fs.WellFormed) (loc : Location) (mode : Mode) :
    Steady fs (FileSystem.setModeAt loc mode fs) := by
  rw [FileSystem.setModeAt]
  split
  · rename_i mode' hmode'
    have hdirs (l : Location) (hd : fs.isDirectoryAt l = true) :
        (fs.put loc (.directory mode)).isDirectoryAt l = true := by
      by_cases heq : l = loc
      · subst heq
        cases l with
        | nil => rfl
        | cons name dir => exact isDirectoryAt_iff.mpr ⟨mode, node?_put_self ..⟩
      · rwa [isDirectoryAt, directoryMode?, node?_put_of_ne fs _ heq]
    refine ⟨⟨fun e he name dir heq => ?_, fun e he n heq => ?_, hwf.working⟩, hdirs,
      fun l target hl => ?_⟩
    · rcases List.mem_cons.mp he with rfl | he
      · obtain rfl : loc = name :: dir := heq
        obtain ⟨hname, hdir⟩ := hwf.parent hmode'
        exact ⟨hname, hdirs _ (isDirectoryAt_iff.mpr hdir)⟩
      · obtain ⟨hname, hdir⟩ := hwf.rooted e (List.mem_filter.mp he).1 name dir heq
        exact ⟨hname, hdirs _ hdir⟩
    · rcases List.mem_cons.mp he with rfl | he
      · cases heq
      · exact hwf.stored e (List.mem_filter.mp he).1 n heq
    · by_cases heq : l = loc
      · subst heq
        cases l with
        | nil => cases hl
        | cons name dir => rw [node?_put_self] at hl; cases hl
      · rwa [node?_put_of_ne fs _ heq] at hl
  · exact .updateInode hwf _ _
  · exact .refl hwf

end Steady

theorem keeps_steady {c : Call ε α} (h : ∀ fs, fs.WellFormed → Steady fs (c.apply fs).2) :
    c.Keeps (Steady fs₀) :=
  fun fs hs => hs.trans (h fs hs.wellFormed)

theorem Call.IsQuiet.steady {c : Call ε α} (hc : c.IsQuiet) : c.Keeps (Steady fs₀) :=
  keeps_steady fun fs hwf => .of_quiet hwf (hc.apply fs)

theorem steady_makeDirAll (p : Path) : (makeDirAll p).Keeps (Steady fs₀) := by
  refine keeps_makeDirAll fun q _ fs dir name mode hs hloc => hs.trans ?_
  have hleads := (locateName_eq_ok.mp hloc).2
  obtain ⟨hdir, hfree⟩ := hleads.of_vacant
  exact .put_free hs.wellFormed (hleads.isName_of_vacant fun x hx =>
    (Path.mem_steps hx).2) hdir hfree
    (by simp) (by simp)

theorem steady_removeFile (p : Path) : (removeFile p).Keeps (Steady fs₀) := by
  refine keeps_steady fun fs hwf => ?_
  rcases removeFile_apply p fs with ⟨e, h⟩ | ⟨loc, -, hdir, h⟩
  · rw [h]
    exact .refl hwf
  · rw [h]
    exact .cut hwf hdir

theorem steady_createFile (p : Path) (mode : Mode) : (createFile p mode).Keeps (Steady fs₀) := by
  refine keeps_steady fun fs hwf => ?_
  rcases createFile_apply p mode fs with ⟨e, h⟩ | ⟨loc, n, -, -, h⟩ | ⟨dir, name, hloc, -, h⟩
  · rw [h]
    exact .refl hwf
  · rw [h]
    exact .updateInode hwf n _
  · rw [h]
    have hleads := (locate_eq_ok.mp hloc).2
    obtain ⟨hdir, hfree⟩ := hleads.of_vacant
    have hadd := Steady.addInode hwf ⟨mode, []⟩
    refine hadd.trans (.put_free hadd.wellFormed
      (hleads.isName_of_vacant fun x hx => Path.slashFree_walkSteps p x hx) ?_ ?_ ?_ (by simp))
    · simpa only [node?_addInode] using hdir
    · rwa [node?_addInode]
    · intro m he
      cases he
      show _ < (fs.inodes ++ [_]).length
      simp

theorem steady_append (n : Nat) (bytes : Bytes) :
    (FileSystem.append n bytes : Call ε Unit).Keeps (Steady fs₀) := by
  refine keeps_steady fun fs hwf => ?_
  rcases append_apply (ε := ε) n bytes fs with h | ⟨f, h⟩
  · rw [h]
    exact .refl hwf
  · rw [h]
    exact .updateInode hwf n f

theorem steady_setMode (p : Path) (mode : Mode) : (setMode p mode).Keeps (Steady fs₀) := by
  refine keeps_steady fun fs hwf => ?_
  rcases setMode_apply p mode fs with ⟨e, h⟩ | ⟨loc, -, h⟩
  · rw [h]
    exact .refl hwf
  · rw [h]
    exact .setModeAt hwf loc mode

theorem steady_copyFile (source target : Path) : (copyFile source target).Keeps (Steady fs₀) := by
  refine .bind (isQuiet_openFile source).steady fun h => .bind (.ask _) fun file => ?_
  split
  · refine .bind (.ask _) fun mode => .bind (steady_createFile target mode) fun m =>
      .bind (keeps_steady fun fs hwf => ?_) fun _ => .bind (.ask _) fun bytes =>
        steady_append m bytes
    exact .updateInode hwf m _
  · exact .throw _

/-! ## Calls that make checked links -/

/-- **No directory is removed, and each new link has been checked**: once its target is
settled, it is firm. -/
structure Checked (root : Location) (fs fs' : FileSystem) : Prop where
  wellFormed : fs'.WellFormed
  directories : ∀ loc, fs.isDirectoryAt loc = true → fs'.isDirectoryAt loc = true
  links : ∀ dir name target, fs'.node? (name :: dir) = some (.link target) →
    fs.node? (name :: dir) = some (.link target) ∨
      (fs'.Settled root dir target → fs'.Firm root dir target)

theorem Steady.checked (h : Steady fs fs') (root : Location) : Checked root fs fs' :=
  ⟨h.wellFormed, h.directories, fun _ _ _ hl => Or.inl (h.links _ _ hl)⟩

theorem Steady.trans_checked (h : Steady fs fs') (h' : Checked root fs' fs'') :
    Checked root fs fs'' := by
  refine ⟨h'.wellFormed, fun loc hd => h'.directories loc (h.directories loc hd),
    fun dir name target hl => ?_⟩
  exact (h'.links dir name target hl).imp (h.links _ _) id

/-- **Firm links stay firm**, and a checked link that is settled joins them. -/
theorem LinksFirm.checked (hfirm : fs.LinksFirm root) (h : Checked root fs fs')
    (hsettled : ∀ dir name target, Location.within root dir = true →
      fs'.node? (name :: dir) = some (.link target) →
      fs.node? (name :: dir) ≠ some (.link target) → fs'.Settled root dir target) :
    fs'.LinksFirm root := by
  intro dir name target hdir hnode
  by_cases hold : fs.node? (name :: dir) = some (.link target)
  · exact (hfirm dir name target hdir hold).of_directories h.directories
  · exact (h.links dir name target hnode).resolve_left hold
      (hsettled dir name target hdir hnode hold)

/-- Putting a link at a free name changes nothing about where it leads. -/
theorem Checked.put_link {name target : String} (hwf : fs.WellFormed) (hname : IsName name)
    (hdir : ∃ mode, fs.node? dir = some (.directory mode)) (hfree : fs.node? (name :: dir) = none)
    (hcheck : fs.Settled root dir target → fs.Firm root dir target) :
    Checked root fs (fs.put (name :: dir) (.link target)) := by
  have hin := nodesIn_put hfree (.link target)
  have hdirs (loc : Location) :
      (fs.put (name :: dir) (.link target)).isDirectoryAt loc = fs.isDirectoryAt loc := by
    by_cases heq : loc = name :: dir
    · subst heq
      rw [isDirectoryAt, isDirectoryAt, directoryMode?, directoryMode?, node?_put_self, hfree]
    · rw [isDirectoryAt, isDirectoryAt, directoryMode?, directoryMode?, node?_put_of_ne fs _ heq]
  have hkeep (loc : Location) (hd : fs.isDirectoryAt loc = true) :
      (fs.put (name :: dir) (.link target)).isDirectoryAt loc = true := by rwa [hdirs]
  refine ⟨hwf.put_of_vacant hname hdir hfree (by simp), hkeep, fun d n t hl => ?_⟩
  by_cases heq : n :: d = name :: dir
  · obtain ⟨rfl, rfl⟩ := List.cons.inj heq
    rw [node?_put_self] at hl
    cases hl
    refine Or.inr fun hsettled => (hcheck ?_).of_directories hkeep
    have hway : (fs.put (n :: d) (.link target)).way d target = fs.way d target :=
      descend_congr hdirs d _
    refine ⟨hway ▸ hsettled.ahead, hway ▸ hsettled.start.imp id fun h m hm => ?_⟩
    have hm := h m hm
    rw [Bool.eq_false_iff] at hm ⊢
    intro hlink
    obtain ⟨t, ht⟩ := isLinkAt_iff.mp hlink
    exact hm (isLinkAt_iff.mpr ⟨t, hin _ _ ht⟩)
  · exact Or.inl (by rwa [node?_put_of_ne fs _ heq] at hl)

end FileSystem

namespace IsPlace
variable {fs : FileSystem} {root : Location} {dir p x : Path} {last : String}
  (hx : IsPlace dir p x last)
include hx

/-- The parent of a place has a text, since the directory that it continues has one. -/
theorem parent_ne_empty (hdir : dir ≠ .empty) : p ≠ .empty := by
  rintro rfl
  obtain ⟨names, hcomps, -⟩ := hx.above
  exact Path.components_ne_nil hdir (List.append_eq_nil_iff.mp hcomps.symm).1

/-- **A link that has been accepted** is made as one that has been checked. -/
theorem makeLink_checked (hr : fs.Ready root p x) (hroot : fs.isDirectoryAt root = true)
    (hdir : dir ≠ .empty) {target : String}
    (hstays : fs.linkStaysUnder root.path x ⟨target⟩ = .ok true) :
    (FileSystem.makeLink target x).Ensures fs fun _ fs' => Checked root fs fs' := by
  unfold Call.Ensures
  rcases makeLink_apply target x fs with ⟨e, h⟩ | ⟨d, n, hloc, h⟩
  · rw [h]
    exact (Steady.refl hr.wellFormed).checked root
  · rw [h]
    obtain ⟨rfl, -, hreach, hd, hfree⟩ := hx.free hr hloc
    exact .put_link hr.wellFormed hx.name hd hfree <|
      .of_linkStaysUnder hr.wellFormed hroot hx.parent (hx.parent_ne_empty hdir) hreach
        (isDirectoryAt_iff.mpr hd) hstays

end IsPlace

namespace Archive

variable {fs fs₀ : FileSystem} {root : Location} {dir p x : Path} {last : String} {ε : Type}

/-- Checking a parent and making it, with errors seen in some way. -/
theorem steady_parentMade (root p : Path) (f : FileError → ε) (e : ε) :
    Call.Keeps (do
      if (← (askResult (·.resolveUnder root p)).withError f).isNone then
        (throw e : Call ε Unit)
      (makeDirAll p).withError f) (Steady fs₀) := by
  refine .bind (Keeps.withError _ (.askResult _)) fun answer => ?_
  split
  · exact .bind (.throw _) fun _ => (steady_makeDirAll _).withError _
  · exact (steady_makeDirAll _).withError _

/-- Clearing a place, with errors seen in some way. -/
theorem steady_cleared (x : Path) (strict : Bool) (f : FileError → ε) (e : ε) :
    Call.Keeps (do
      if ← ask (·.isPresent x) then
        if strict then (throw e : Call ε Unit)
        (removeFile x).withError f) (Steady fs₀) := by
  refine .bind (.ask _) fun isPresent => ?_
  split
  · split
    · exact .bind (.throw _) fun _ => (steady_removeFile _).withError _
    · exact (steady_removeFile _).withError _
  · exact .pure _

theorem steady_prepareParent (root target : Path) (name : String) :
    (prepareParent root target name).Keeps (Steady fs₀) := by
  rw [prepareParent]
  split
  · exact .pure _
  · exact steady_parentMade root _ ArchiveError.ofFile (.plain (.unsafeName name))

theorem steady_clearTarget (target : Path) (policy : UnpackPolicy) :
    (clearTarget target policy).Keeps (Steady fs₀) := by
  rw [clearTarget]
  exact steady_cleared target policy.strict ArchiveError.ofFile (.plain (.wouldOverwrite target))

variable [Zlib.Inflater]

theorem steady_writeFile (a : Archive) (r : Record) (target : Path) :
    (a.writeFile r target).Keeps (Steady fs₀) := by
  refine .bind ((steady_createFile _ _).withError _) fun inode =>
    .bind (isQuiet_stream a r).steady fun decoding => .bind (steady_append _ _) fun _ => ?_
  split
  · exact .bind (steady_removeFile _).outcome fun _ => .throw _
  · exact (steady_setMode _ _).withError _

/-- **Making the link of an entry** makes a checked link, or none. -/
theorem writeLink_checked (hx : IsPlace dir p x last) (hr : fs.Ready root p x)
    (hroot : fs.isDirectoryAt root = true) (hdir : dir ≠ .empty) (a : Archive) (r : Record) :
    (a.writeLink r root.path x).Ensures fs fun _ fs' => Checked root fs fs' := by
  refine Ensures.bind (R := fun _ fs₁ => Quiet fs fs₁) ((isQuiet_payload a r).apply fs)
    (fun bytes fs₁ hq => ?_) fun e fs₁ hq => (Steady.of_quiet hr.wellFormed hq).checked root
  have hr₁ := hr.quiet hq
  have hsteady := Steady.of_quiet hr.wellFormed hq
  split
  · refine Ensures.bind (R := fun r fs₂ => fs₂ = fs₁ ∧
      r = (fs₁.linkStaysUnder root.path x _).mapError _) ⟨rfl, rfl⟩ ?_ ?_
    · rintro stays fs₂ ⟨rfl, hstays⟩
      have hstays := mapError_eq_ok.mp hstays.symm
      cases stays with
      | true =>
        exact ((hx.makeLink_checked hr₁ (hsteady.directories _ hroot) hdir hstays).relabel _).mono
          fun _ _ h => hsteady.trans_checked h
      | false => exact ensures_throw (hsteady.checked root)
    · rintro e fs₂ ⟨rfl, -⟩
      exact hsteady.checked root
  · exact ensures_throw (hsteady.checked root)

/-- **Unpacking an entry** below a directory makes checked links only. -/
theorem place_checked (hwf : fs.WellFormed) (hdir : fs.Canonical dir root)
    (hroot : fs.isDirectoryAt root = true) (a : Archive) (r : Record) (policy : UnpackPolicy) :
    (a.place r dir policy).Ensures fs fun _ fs' => Checked root fs fs' := by
  have hsame : Checked root fs fs := (Steady.refl hwf).checked root
  rw [place]
  split
  · exact ensures_throw hsame
  split
  · rename_i x hx
    obtain ⟨p, last, hx⟩ := isPlace_of_containedJoin hdir.ne_empty hx
    have hsteady : (makeDirAll dir).Keeps (Steady fs) := steady_makeDirAll dir
    have hmade := hsteady.ensures (.refl hwf) (makeDirAll_ensures hwf dir)
    refine (hmade.withError (f := ArchiveError.ofFile)
      (Q := fun _ fs₁ => Steady fs fs₁ ∧ fs₁.Canonical dir root) fun _ fs₁ h => ?_).bind
      ?_ fun e fs₁ h => h.1.checked root
    · exact ⟨h.2, hdir.mono_of_shows h.1.2.1.shows h.1.2.2.workingDir⟩
    rintro _ fs₁ ⟨hs₁, hdir₁⟩
    refine Ensures.bind (R := fun r fs₂ => fs₂ = fs₁ ∧
      r = (fs₁.canonicalize dir).mapError _) ⟨rfl, rfl⟩ ?_ fun e fs₂ h => h.1 ▸ hs₁.checked root
    rintro q fs₂ ⟨rfl, hq⟩
    rw [canonicalize_eq_ok.mpr ⟨root, rfl, hdir₁⟩] at hq
    obtain rfl := Except.ok.inj hq
    refine ((steady_prepareParent _ _ _).ensures hs₁
      (prepareParent_ensures hx hs₁.wellFormed hdir₁ r.name)).bind ?_
      fun e fs₃ h => h.2.checked root
    rintro _ fs₃ ⟨h₃, hs₃⟩
    refine ((steady_clearTarget _ _).ensures hs₃
      (clearTarget_ensures hx hs₃.wellFormed (h₃.2.2 rfl) policy)).bind ?_
      fun e fs₄ h => h.2.checked root
    rintro _ fs₄ ⟨h₄, hs₄⟩
    split
    · refine (writeLink_checked hx (h₄.2.2 rfl) (hs₄.directories _ hroot) hdir.ne_empty a r).bind
        (fun _ fs₅ h₅ => ensures_pure (hs₄.trans_checked h₅)) fun e fs₅ h₅ => hs₄.trans_checked h₅
    · have hwrite : (a.writeFile r x).Keeps (Steady fs) := steady_writeFile a r x
      exact Ensures.bind (R := fun _ fs₅ => Steady fs fs₅) (hwrite fs₄ hs₄)
        (fun _ fs₅ h₅ => ensures_pure (h₅.checked root)) fun e fs₅ h₅ => h₅.checked root
  · exact ensures_throw hsame

theorem unpack_checked (hwf : fs.WellFormed) (hdir : fs.Canonical dir root)
    (hroot : fs.isDirectoryAt root = true) (a : Archive) (r : Record) (policy : UnpackPolicy) :
    (a.unpack r dir policy).Ensures fs fun _ fs' => Checked root fs fs' :=
  (place_checked hwf hdir hroot a r policy).relabel _

end Archive

namespace Resolver

variable {fs fs₀ : FileSystem} {root : Location} {dir : Path}

/-- **Copying a member** of an unpacked sibling makes no link. -/
theorem steady_copyMember (r : Resolver) (source : Path) (member : String) (dir : Path) :
    (r.copyMember source member dir).Keeps (Steady fs₀) := by
  unfold copyMember
  cases dir.containedJoin member with
  | none => exact .throw _
  | some x =>
    have hprepare (root : Path) : (prepareParent root x member).Keeps (Steady fs₀) := by
      rw [prepareParent]
      split
      · exact .pure _
      · exact Archive.steady_parentMade root _ LaunchError.io
          (.archive (.plain (.unsafeName member)))
    have hclear : (r.clearTarget x).Keeps (Steady fs₀) := by
      rw [clearTarget]
      exact Archive.steady_cleared x r.policy.strict LaunchError.io
        (.archive (.plain (.wouldOverwrite x)))
    exact .bind ((steady_makeDirAll dir).withError _) fun _ =>
      .bind (Keeps.withError _ (.askResult _)) fun root => .bind (hprepare root) fun _ =>
      .bind hclear fun _ => .bind ((steady_copyFile source x).withError _) fun _ => .pure _

/-- **Resolving a reference** makes checked links only. -/
theorem resolve_checked [Zlib.Inflater] (hwf : fs.WellFormed) (hdir : fs.Canonical dir root)
    (hroot : fs.isDirectoryAt root = true) (r : Resolver) (text : String) (pool : Pool) :
    (r.resolve text dir).Ensures pool fs fun _ fs' => Checked root fs fs' := by
  refine ensures_resolve (ignoresReading_quiet fs) r text dir pool ⟨fs.openFiles, rfl⟩
    (fun _ fs' hq => (Steady.of_quiet hwf hq).checked root) (fun reference source _ => ?_)
    fun reference fs' a _ hq => ?_
  · have hsteady : (r.copyMember source reference.member dir).Keeps (Steady fs) :=
      steady_copyMember r source reference.member dir
    exact (hsteady fs (.refl hwf)).checked root
  have hs := Steady.of_quiet hwf hq
  rw [unpackMember]
  split
  · refine ((a.unpack_checked hs.wellFormed ?_ (hs.directories _ hroot) _ r.policy).relabel
      _).mono fun _ _ h => hs.trans_checked h
    obtain ⟨files, rfl⟩ := hq
    refine hdir.mono_of_shows (NodesIn.shows fun loc node hn => ?_) rfl
    rwa [node?_openFiles]
  · exact Call.ensures_throw (hs.checked root)

end Resolver

/-! ## What is there at the start stays -/

namespace FileSystem

variable {fs fs' : FileSystem} {root loc : Location} {dir : Path}

/-- **With the directory there**, a call may touch what lies inside it, and free names. -/
theorem MayTouch.inside_or_free (hwf : fs.WellFormed) (hdir : fs.Canonical dir root)
    (h : fs.MayTouch dir loc) : Location.Inside root loc ∨ fs.node? loc = none := by
  rcases h with ⟨root', hcanon, ⟨node', hnode'⟩, hinside⟩ | hmade
  · obtain ⟨hwf', hin, hch⟩ := makeDirAll_ensures hwf dir
    have hdir' := hdir.mono_of_shows hin.shows hch.workingDir
    rw [canonicalize_eq_ok.mpr ⟨root, rfl, hdir'⟩] at hcanon
    obtain ⟨node, hnode, -⟩ := hdir'.holdsPlain hwf'
    have heq := Location.path_inj (hwf'.names hnode) (hwf'.names hnode') (Except.ok.inj hcanon)
    exact Or.inl (heq ▸ hinside)
  · exact Or.inr hmade.free

/-- What does not lie inside the directory stays as it is. -/
theorem KeepsTo.entry? (hwf : fs.WellFormed) (hdir : fs.Canonical dir root)
    (h : fs.KeepsTo dir fs') (hloc : ¬Location.Inside root loc) {e : FileEntry}
    (he : fs.entry? loc = some e) : fs'.entry? loc = some e := by
  have hchanged := h.2
  rw [hchanged.entry? fun ht => ?_, he]
  rcases ht.inside_or_free hwf hdir with hinside | hfree
  · exact hloc hinside
  · rw [FileSystem.entry?, hfree] at he
    cases he

/-- **New links are settled**: what a call has made of links in the root is settled after
it. -/
def SettlesLinks (root : Location) (fs fs' : FileSystem) : Prop :=
  ∀ dir name target, Location.within root dir = true →
    fs'.node? (name :: dir) = some (.link target) →
    fs.node? (name :: dir) ≠ some (.link target) → fs'.Settled root dir target

/-- **The state of a run that started in an empty directory**: what was there at the start
is there, and all links in the root are firm. -/
structure Running (root : Location) (start fs : FileSystem) : Prop where
  wellFormed : fs.WellFormed
  entries : ∀ loc e, start.entry? loc = some e → fs.entry? loc = some e
  workingDir : fs.workingDir = start.workingDir
  firm : fs.LinksFirm root

end FileSystem

namespace Request

variable {fs start : FileSystem} {root : Location} {dir : Path}

section

variable [Zlib.Inflater]

/-- **One call** makes checked links only. -/
theorem perform_checked (hwf : fs.WellFormed) (hdir : fs.Canonical dir root)
    (hroot : fs.isDirectoryAt root = true) (q : Request) :
    Checked root fs (q.perform dir fs) := by
  cases q with
  | entry a r policy => exact a.unpack_checked hwf hdir hroot r policy
  | member resolver pool text => exact resolver.resolve_checked hwf hdir hroot text pool

section Run
variable (hdir : start.Canonical dir root) (hroot : start.isDirectoryAt root = true)
  (hempty : ∀ loc, Location.Inside root loc → start.node? loc = none)
include hdir hroot hempty

/-- **A call keeps the state of a run**, if the links that it makes are settled. -/
theorem perform_running (h : Running root start fs) (q : Request)
    (hsettles : SettlesLinks root fs (q.perform dir fs)) :
    Running root start (q.perform dir fs) := by
  have hshows := shows_of_entries h.entries
  have hdir' := hdir.mono_of_shows hshows h.workingDir
  have hroot' : fs.isDirectoryAt root = true := by
    obtain ⟨mode, hmode⟩ := isDirectoryAt_iff.mp hroot
    exact isDirectoryAt_iff.mpr ⟨mode, hshows.directory _ _ hmode⟩
  have hkeeps := perform_keepsTo h.wellFormed dir q
  have hchecked := perform_checked h.wellFormed hdir' hroot' q
  refine ⟨hkeeps.1, fun loc e he => ?_, hkeeps.2.workingDir.trans h.workingDir,
    h.firm.checked hchecked hsettles⟩
  refine hkeeps.entry? h.wellFormed hdir' (fun hinside => ?_) (h.entries loc e he)
  rw [FileSystem.entry?, hempty loc hinside] at he
  cases he

/-- The state of a run is kept by all its calls. -/
theorem performAll_running (h : Running root start fs) {requests : List Request}
    (hsettles : ∀ done next rest, requests = done ++ next :: rest →
      SettlesLinks root (performAll dir fs done) (performAll dir fs (done ++ [next]))) :
    Running root start (performAll dir fs requests) := by
  induction requests generalizing fs with
  | nil => exact h
  | cons q requests ih =>
    refine ih (perform_running hdir hroot hempty h q (hsettles [] q requests rfl)) ?_
    exact fun done next rest he => hsettles (q :: done) next rest (by rw [he]; rfl)

end Run

/-- **Links stay inside.**  Whatever is unpacked below an empty directory, in whatever
order and from whatever archives: as long as the links that are made are settled, after
every call of the run each link below the directory leads into it, or nowhere. -/
theorem links_lead_inside (hwf : start.WellFormed) (hdir : start.canonicalize dir = .ok root.path)
    (hroot : start.isDirectoryAt root = true)
    (hempty : ∀ loc, Location.Inside root loc → start.node? loc = none) (requests : List Request)
    (hsettles : ∀ done next rest, requests = done ++ next :: rest →
      SettlesLinks root (performAll dir start done) (performAll dir start (done ++ [next]))) :
    ∀ done rest, requests = done ++ rest → ∀ within name target,
      Location.within root within = true →
      FileSystem.node? (performAll dir start done) (name :: within) = some (.link target) →
      (performAll dir start done).LeadsInto root (name :: within) := by
  obtain ⟨root', hpath, hcanon⟩ := canonicalize_eq_ok.mp hdir
  obtain ⟨mode, hmode⟩ := isDirectoryAt_iff.mp hroot
  obtain ⟨node, hnode, -⟩ := hcanon.holdsPlain hwf
  obtain rfl := Location.path_inj (hwf.names hmode) (hwf.names hnode) hpath
  have hstart : Running root start start := by
    refine ⟨hwf, fun _ _ h => h, rfl, fun d name target hd hn => ?_⟩
    rw [hempty _ (Location.inside_cons name hd)] at hn
    cases hn
  rintro done rest rfl d name target hd hn
  have hrun : Running root start (performAll dir start done) :=
    performAll_running hcanon hroot hempty hstart
      fun done' next rest' he => hsettles done' next (rest' ++ rest) (by rw [he]; simp)
  exact hrun.firm.leadsInto hrun.wellFormed hd hn

end

/-- A link that goes up from a place that is missing, and a link at that place to the directory
that it is in. -/
def turning : List PackedEntry :=
  [.plain .symlink "evil" (Text.encode "a/../c"), .plain .symlink "a" (Text.encode ".")]

/-- The general statement for a run that makes the second link alone. -/
theorem links_lead_inside_turning : ∃ a files link,
    (Archive.load ⟨"/c"⟩).apply (Archive.packedFiles turning) = (.ok a, files) ∧
      a.find? "a" = some link ∧ files.WellFormed ∧
      files.canonicalize ⟨"/out"⟩ = .ok (Location.path ["out"]) ∧
      FileSystem.node? (performAll ⟨"/out"⟩ files [entry a link ⟨false⟩]) ["a", "out"] =
        some (.link ".") ∧
      (performAll ⟨"/out"⟩ files [entry a link ⟨false⟩]).LeadsInto ["out"] ["a", "out"] := by
  obtain ⟨a, files, hload, hlisted, hwf, hdir, hroot, hempty, hmade, hsettled⟩ :
      Archive.OpensTo turning fun a files => (a.find? "a").isSome ∧ files.WellFormed ∧
        files.canonicalize ⟨"/out"⟩ = .ok (Location.path ["out"]) ∧
        files.isDirectoryAt ["out"] = true ∧
        (∀ e ∈ files.nodes, ¬Location.Inside ["out"] e.1) ∧
        (∀ r ∈ a.find? "a", FileSystem.nodes (performAll ⟨"/out"⟩ files [entry a r ⟨false⟩]) =
          (["a", "out"], .link ".") :: files.nodes) ∧
        ∀ r ∈ a.find? "a", FileSystem.Settled (performAll ⟨"/out"⟩ files [entry a r ⟨false⟩])
          ["out"] ["out"] "." := by decide +kernel
  obtain ⟨link, hlink⟩ := Option.isSome_iff_exists.mp hlisted
  have hnodes := hmade link hlink
  have hthere : FileSystem.node? (performAll ⟨"/out"⟩ files [entry a link ⟨false⟩]) ["a", "out"] =
      some (.link ".") := by
    simp [FileSystem.node?, hnodes]
  refine ⟨a, files, link, hload, hlink, hwf, hdir, hthere, ?_⟩
  refine links_lead_inside hwf hdir hroot (vacant_of_nodes hempty) [entry a link ⟨false⟩] ?_
    [entry a link ⟨false⟩] [] rfl ["out"] "a" "." (by decide) hthere
  rintro done next rest he dir name target hwithin hnode -
  obtain ⟨rfl, rfl, rfl⟩ : done = [] ∧ next = entry a link ⟨false⟩ ∧ rest = [] := by
    cases done with
    | nil => simpa [eq_comm] using he
    | cons q done => simp at he
  -- the link is the only node inside the directory
  have hmem : ((name :: dir, .link target) : Location × Node) ∈
      (["a", "out"], .link ".") :: files.nodes := hnodes ▸ mem_nodes_of_node? hnode
  obtain ⟨rfl, rfl, rfl⟩ : name = "a" ∧ dir = ["out"] ∧ target = "." := by
    rcases List.mem_cons.mp hmem with heq | hold
    · simpa [and_assoc] using heq
    · exact absurd (Location.inside_cons name hwithin) (hempty _ hold)
  exact hsettled link hlink

/-- **A later link turns an earlier one.**  In an empty directory both links are
accepted; the second one is the place that the first one goes up from, and the first
one then leads to the container beside the directory. -/
theorem later_link_turns_earlier : ∃ a files,
    (Archive.load ⟨"/c"⟩).apply (Archive.packedFiles turning) = (.ok a, files) ∧
      (a.records.map fun r => (r.kind, r.name)) = [(.symlink, "evil"), (.symlink, "a")] ∧
      files.WellFormed ∧ files.canonicalize ⟨"/out"⟩ = .ok (Location.path ["out"]) ∧
      (∀ loc, Location.Inside ["out"] loc → files.node? loc = none) ∧
      FileSystem.node? (performAll ⟨"/out"⟩ files (inOrder a)) ["evil", "out"] =
        some (.link "a/../c") ∧
      (performAll ⟨"/out"⟩ files ((inOrder a).take 1)).LeadsInto ["out"] ["evil", "out"] ∧
      ¬(performAll ⟨"/out"⟩ files (inOrder a)).LeadsInto ["out"] ["evil", "out"] := by
  obtain ⟨a, files, hload, hrecords, hwf, hdir, hempty, hmade, hnowhere, hmissing, hturned⟩ :
      Archive.OpensTo turning fun a files =>
        (a.records.map fun r => (r.kind, r.name)) = [(.symlink, "evil"), (.symlink, "a")] ∧
        files.WellFormed ∧ files.canonicalize ⟨"/out"⟩ = .ok (Location.path ["out"]) ∧
        (∀ e ∈ files.nodes, ¬Location.Inside ["out"] e.1) ∧
        FileSystem.node? (performAll ⟨"/out"⟩ files (inOrder a)) ["evil", "out"] =
          some (.link "a/../c") ∧
        (FileSystem.canonicalize (performAll ⟨"/out"⟩ files ((inOrder a).take 1))
          (Location.path ["evil", "out"])).toOption = none ∧
        (FileSystem.find (performAll ⟨"/out"⟩ files ((inOrder a).take 1)) true
          (Location.path ["evil", "out"])).toOption = none ∧
        FileSystem.find (performAll ⟨"/out"⟩ files (inOrder a)) true
          (Location.path ["evil", "out"]) = .ok ["c"] := by decide +kernel
  refine ⟨a, files, hload, hrecords, hwf, hdir, vacant_of_nodes hempty, hmade,
    ⟨fun q hq => ?_, fun stop hstop => ?_⟩, fun h => ?_⟩
  · rw [hq] at hnowhere
    cases hnowhere
  · rw [hstop] at hmissing
    cases hmissing
  · exact absurd (h.found ["c"] hturned) (by decide)

end Request

end Stowage
