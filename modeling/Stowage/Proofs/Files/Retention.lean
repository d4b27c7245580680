import Stowage.Proofs.Files.Place
import Stowage.Proofs.Files.Removal

/-!
# What is kept

`ChangedOnly` bounds what a call touches.  `Retains P` is about what it leaves alone: every
node that does not lie where `P` holds, the content behind every inode that there was, and
what every open file refers to.  New nodes and new inodes may have come.

Two things make it useful.  A path that leads to a file still does, as long as no node on
the way is given up (`HoldsFile.retained`, `HoldsFile.retained_but`).  And a file that has
been made at a free name may be written to, given permissions and removed again, without
anything of what was there before being lost (`NewFile`).
-/

namespace Stowage.FileSystem

open Result Call

variable {P Q : Location → Prop} {fs fs' fs'' : FileSystem} {loc : Location} {p x : Path}
  {n : Nat} {ε : Type}

/-! ## Inodes -/

theorem inode_addInode_self (fs : FileSystem) (content : Inode) :
    (fs.addInode content).2.inode fs.inodes.length = content := by
  show ((fs.inodes ++ [content])[fs.inodes.length]?).getD _ = content
  simp

theorem inode_updateInode_self (h : n < fs.inodes.length) (f : Inode → Inode) :
    (fs.updateInode n f).inode n = f (fs.inode n) := by
  show ((fs.inodes.modify n f)[n]?).getD _ = f ((fs.inodes[n]?).getD _)
  rw [List.getElem?_modify_eq, List.getElem?_eq_getElem h]
  rfl

/-! ## Retaining -/

/-- **Everything that was there is kept**, but for nodes where `P` holds. -/
structure Retains (P : Location → Prop) (fs fs' : FileSystem) : Prop where
  nodes : ∀ loc node, ¬P loc → fs.node? loc = some node → fs'.node? loc = some node
  length_le : fs.inodes.length ≤ fs'.inodes.length
  inodes : ∀ n < fs.inodes.length, fs'.inode n = fs.inode n
  opened : ∀ (file : Handle) (f : OpenFile), fs.openFiles[file]? = some f →
    ∃ position, fs'.openFiles[file]? = some ⟨f.target, position⟩
  workingDir : fs'.workingDir = fs.workingDir

/-- Everything that was there is kept. -/
abbrev RetainsAll (fs fs' : FileSystem) : Prop := Retains (fun _ => False) fs fs'

/-- Everything that was there is kept, but for the node at a location. -/
abbrev RetainsBut (loc : Location) (fs fs' : FileSystem) : Prop := Retains (· = loc) fs fs'

namespace Retains

theorem refl (fs : FileSystem) : Retains P fs fs :=
  ⟨fun _ _ _ h => h, Nat.le_refl _, fun _ _ => rfl, fun _ f h => ⟨f.position, h⟩, rfl⟩

theorem trans (h : Retains P fs fs') (h' : Retains P fs' fs'') : Retains P fs fs'' where
  nodes loc node hp hn := h'.nodes loc node hp (h.nodes loc node hp hn)
  length_le := Nat.le_trans h.length_le h'.length_le
  inodes n hn := (h'.inodes n (Nat.lt_of_lt_of_le hn h.length_le)).trans (h.inodes n hn)
  opened file f hf := by
    obtain ⟨position, hf'⟩ := h.opened file f hf
    exact h'.opened file ⟨f.target, position⟩ hf'
  workingDir := h'.workingDir.trans h.workingDir

theorem mono (h : Retains P fs fs') (hpq : ∀ loc, P loc → Q loc) : Retains Q fs fs' :=
  { h with nodes := fun loc node hq => h.nodes loc node fun hp => hq (hpq loc hp) }

/-- What is kept everywhere is kept elsewhere. -/
theorem of_all (h : RetainsAll fs fs') : Retains P fs fs' := h.mono fun _ hf => hf.elim

/-- What is kept but for a node that was not there is kept. -/
theorem all_of_free (h : RetainsBut loc fs fs') (hfree : fs.node? loc = none) :
    RetainsAll fs fs' :=
  { h with
    nodes := fun l node _ hnode => h.nodes l node (fun he => by
      rw [he, hfree] at hnode
      cases hnode) hnode }

/-- A node can be put at a free location. -/
theorem put (h : Retains P fs fs') (hfree : fs'.node? loc = none) (node : Node) :
    Retains P fs (fs'.put loc node) :=
  { h with nodes := fun l m hp hn => nodesIn_put hfree node l m (h.nodes l m hp hn) }

/-- An inode can be added. -/
theorem addInode (h : Retains P fs fs') (content : Inode) :
    Retains P fs (fs'.addInode content).2 where
  nodes loc node hp hn := by
    rw [node?_addInode]
    exact h.nodes loc node hp hn
  length_le := by
    show _ ≤ (fs'.inodes ++ [content]).length
    rw [List.length_append]
    exact Nat.le_trans h.length_le (Nat.le_add_right ..)
  inodes n hn := by
    rw [inode_addInode (Nat.lt_of_lt_of_le hn h.length_le), h.inodes n hn]
  opened := h.opened
  workingDir := h.workingDir

/-- A new inode can be changed. -/
theorem updateInode (h : Retains P fs fs') (hn : fs.inodes.length ≤ n) (f : Inode → Inode) :
    Retains P fs (fs'.updateInode n f) where
  nodes loc node hp hm := by
    rw [node?_updateInode]
    exact h.nodes loc node hp hm
  length_le := by
    show _ ≤ (fs'.inodes.modify n f).length
    rw [List.length_modify]
    exact h.length_le
  inodes m hm := by
    rw [inode_updateInode_of_ne (Nat.ne_of_lt (Nat.lt_of_lt_of_le hm hn)), h.inodes m hm]
  opened := h.opened
  workingDir := h.workingDir

/-- **What is no directory can be removed**, if its node may be given up or was not there. -/
theorem cut (h : Retains P fs fs') (hwf : fs'.WellFormed) (hdir : fs'.isDirectoryAt loc = false)
    (hloc : P loc ∨ fs.node? loc = none) : Retains P fs (fs'.cut loc) :=
  { h with
    nodes := fun l node hp hn => by
      have hplain (mode : Mode) : fs'.node? loc ≠ some (.directory mode) := fun he => by
        rw [isDirectoryAt_iff.mpr ⟨mode, he⟩] at hdir
        cases hdir
      have hn' := h.nodes l node hp hn
      rw [node?_cut_of_not_within fs', hn']
      cases hw : Location.within loc l with
      | false => rfl
      | true =>
        obtain rfl := hwf.eq_of_within hn' hw hplain
        rcases hloc with hloc | hloc
        · exact absurd hloc hp
        · rw [hn] at hloc
          cases hloc }

/-- What is held away from `P` is held on, be it a file with its content. -/
theorem kept_entry (h : Retains P fs fs') (hwf : fs.WellFormed) {e : FileEntry} (hp : ¬P loc)
    (he : fs.entry? loc = some e) : fs'.entry? loc = some e := by
  obtain ⟨node, hnode, rfl⟩ := Option.map_eq_some_iff.mp he
  rw [FileSystem.entry?, h.nodes loc node hp hnode]
  cases node with
  | directory mode => rfl
  | link target => rfl
  | file n => simp only [Option.map_some, h.inodes n (hwf.lt_length_of_file hnode)]

theorem nodesIn (h : RetainsAll fs fs') : NodesIn fs fs' := fun loc node => h.nodes loc node id

/-- Without the node that is given up, all nodes are still there. -/
theorem nodesIn_of_cut (h : RetainsBut loc fs fs') : NodesIn (fs.cut loc) fs' := by
  intro l node hn
  cases l with
  | nil => exact hn
  | cons name dir =>
    refine h.nodes _ node ?_ (nodesIn_cut fs loc _ node hn)
    rintro rfl
    rw [node?_cut_of_within fs (Location.within_refl _)] at hn
    cases hn

end Retains

/-- Reading files keeps everything. -/
theorem ignoresReading_retains (P : Location → Prop) (fs : FileSystem) :
    IgnoresReading (Retains P fs) where
  opened fs' f h :=
    { nodes := fun l node hp hn => by rw [node?_openFiles]; exact h.nodes l node hp hn
      length_le := h.length_le
      inodes := h.inodes
      opened := fun file g hg => by
        obtain ⟨position, hg'⟩ := h.opened file g hg
        refine ⟨position, ?_⟩
        show (fs'.openFiles ++ [f])[file]? = _
        rw [List.getElem?_append_left (List.getElem?_eq_some_iff.mp hg').1, hg']
      workingDir := h.workingDir }
  moved fs' file f hf h :=
    { nodes := fun l node hp hn => by rw [node?_openFiles]; exact h.nodes l node hp hn
      length_le := h.length_le
      inodes := h.inodes
      opened := fun other g hg => by
        obtain ⟨position, hg'⟩ := h.opened other g hg
        show ∃ position, (fs'.openFiles.modify file f)[other]? = _
        by_cases he : file = other
        · subst he
          refine ⟨(f ⟨g.target, position⟩).position, ?_⟩
          rw [List.getElem?_modify_eq, hg']
          have htarget := hf ⟨g.target, position⟩
          show some (f ⟨g.target, position⟩) = _
          generalize f ⟨g.target, position⟩ = moved at htarget
          cases moved
          cases htarget
          rfl
        · exact ⟨position, by rw [List.getElem?_modify_ne _ _ he, hg']⟩
      workingDir := h.workingDir }

/-- **Everything is as it was**, but for what is open and for inodes that have no name. -/
structure Intact (fs fs' : FileSystem) : Prop extends Retains (fun _ => False) fs fs' where
  only : ∀ loc, fs'.node? loc = fs.node? loc

namespace Intact

theorem refl (fs : FileSystem) : Intact fs fs := ⟨.refl fs, fun _ => rfl⟩

theorem trans (h : Intact fs fs') (h' : Intact fs' fs'') : Intact fs fs'' :=
  ⟨h.toRetains.trans h'.toRetains, fun loc => (h'.only loc).trans (h.only loc)⟩

/-- What is kept while nothing changes but what is open is as it was. -/
theorem of_quiet (hq : Quiet fs fs') (hkept : RetainsAll fs fs') : Intact fs fs' := by
  obtain ⟨files, rfl⟩ := hq
  exact ⟨hkept, node?_openFiles fs files⟩

variable (h : Intact fs fs')
include h

theorem entry? (hwf : fs.WellFormed) (loc : Location) : fs'.entry? loc = fs.entry? loc := by
  cases he : fs.entry? loc with
  | some e => exact h.kept_entry hwf id he
  | none => rw [FileSystem.entry?, h.only, Option.map_eq_none_iff.mp he, Option.map_none]

theorem locateName (p : Path) : fs'.locateName p = fs.locateName p :=
  locateName_congr h.only h.workingDir

end Intact

/-! ## Open files -/

/-- A handle refers to something that is open, and whose content is there. -/
def HasOpen (fs : FileSystem) (file : Handle) : Prop :=
  ∃ f, fs.openFiles[file]? = some f ∧ ∀ n, f.target = .file n → n < fs.inodes.length

namespace HasOpen
variable {file : Handle} (h : fs.HasOpen file)
include h

theorem retained (hr : Retains P fs fs') : fs'.HasOpen file := by
  obtain ⟨f, hf, hn⟩ := h
  obtain ⟨position, hf'⟩ := hr.opened file f hf
  exact ⟨_, hf', fun n he => Nat.lt_of_lt_of_le (hn n he) hr.length_le⟩

/-- **What is open keeps its content.** -/
theorem contentOf (hr : Retains P fs fs') : fs'.contentOf file = fs.contentOf file := by
  obtain ⟨⟨target, position⟩, hf, hn⟩ := h
  obtain ⟨position', hf'⟩ := hr.opened file _ hf
  rw [FileSystem.contentOf, FileSystem.contentOf, hf, hf']
  cases target with
  | directory => rfl
  | file n => exact congrArg Inode.bytes (hr.inodes n (hn n rfl))

end HasOpen

/-! ## Files that a path leads to -/

/-- A path leads to a file with these permissions and this content. -/
def HoldsFile (fs : FileSystem) (x : Path) (content : Inode) : Prop :=
  ∃ loc n, fs.find true x = .ok loc ∧ fs.node? loc = some (.file n) ∧ n < fs.inodes.length ∧
    fs.inode n = content

/-- What a path leads to is found through a location: without what is there, the path does not
lead to the same node. -/
def DependsOn (fs : FileSystem) (x : Path) (loc : Location) : Prop :=
  (fs.cut loc).find true x ≠ fs.find true x

namespace HoldsFile
variable {content : Inode} (h : fs.HoldsFile x content)
include h

/-- **A file that a path leads to** is still found there when everything is kept. -/
theorem retained (hr : RetainsAll fs fs') : fs'.HoldsFile x content := by
  obtain ⟨loc, n, hfind, hnode, hn, hinode⟩ := h
  exact ⟨loc, n, find_mono hfind hr.nodesIn.shows hr.workingDir, hr.nodesIn _ _ hnode,
    Nat.lt_of_lt_of_le hn hr.length_le, (hr.inodes n hn).trans hinode⟩

/-- It is found there as well when a node is given up that the path does not depend on. -/
theorem retained_but (hwf : fs.WellFormed) (hr : RetainsBut loc fs fs')
    (hindependent : ¬fs.DependsOn x loc) : fs'.HoldsFile x content := by
  obtain ⟨dst, n, hfind, hnode, hn, hinode⟩ := h
  have hcut : (fs.cut loc).find true x = .ok dst := by
    rw [← hfind]
    exact Classical.not_not.mp hindependent
  have hfind' : fs'.find true x = .ok dst :=
    find_mono hcut hr.nodesIn_of_cut.shows hr.workingDir
  obtain ⟨node, hleft, -⟩ := (canonical_of_find hcut).holdsPlain (hwf.cut loc)
  have hkept : fs'.node? dst = some (.file n) := by
    have hsame := (nodesIn_cut fs loc dst node hleft).symm.trans hnode
    rw [hr.nodesIn_of_cut dst node hleft, hsame]
  exact ⟨dst, n, hfind', hkept, Nat.lt_of_lt_of_le hn hr.length_le, (hr.inodes n hn).trans hinode⟩

end HoldsFile

/-! ## New files -/

/-- **What a path names is new**: its place was free, and nothing that was there is lost. -/
structure Named (fs fs' : FileSystem) (x : Path) (loc : Location) : Prop where
  vacant : ∃ dir name, loc = name :: dir ∧ fs.locateName x = .ok (.vacant dir name)
  retains : RetainsAll fs fs'
  named : fs'.locateName x = .ok (.present loc)

theorem Named.free (h : Named fs fs' x loc) : fs.node? loc = none := by
  obtain ⟨dir, name, rfl, hloc⟩ := h.vacant
  exact (locateName_eq_ok.mp hloc).2.of_vacant.2

/-- What is opened before does not matter. -/
theorem Named.of_quiet (h : Named fs' fs'' x loc) (hq : Quiet fs fs') (hkept : RetainsAll fs fs') :
    Named fs fs'' x loc := by
  obtain ⟨files, rfl⟩ := hq
  obtain ⟨dir, name, rfl, hloc⟩ := h.vacant
  rw [locateName_openFiles] at hloc
  exact ⟨⟨dir, name, rfl, hloc⟩, hkept.trans h.retains, h.named⟩

/-- **A path names a new file** with an inode of its own, and nothing else is new. -/
structure NewFile (fs fs' : FileSystem) (x : Path) (loc : Location) (n : Nat) : Prop
    extends Named fs fs' x loc where
  outer : fs.Usable loc.tail
  only : ∀ l, l ≠ loc → fs'.node? l = fs.node? l
  wellFormed : fs'.WellFormed
  fresh : fs.inodes.length ≤ n
  node : fs'.node? loc = some (.file n)
  found : fs'.find true x = .ok loc

namespace NewFile
variable {loc : Location} (h : NewFile fs fs' x loc n)
include h

theorem lt_length : n < fs'.inodes.length := h.wellFormed.lt_length_of_file h.node

/-- Its inode may be changed. -/
theorem updateInode (f : Inode → Inode) : NewFile fs (fs'.updateInode n f) x loc n where
  vacant := h.vacant
  outer := h.outer
  retains := h.retains.updateInode h.fresh f
  only l hl := by rw [node?_updateInode, h.only l hl]
  wellFormed := h.wellFormed.updateInode n f
  fresh := h.fresh
  node := by rw [node?_updateInode, h.node]
  named := by
    rw [locateName_congr (node?_updateInode fs' n f) rfl, h.named]
  found := find_mono h.found (NodesIn.shows fun l m hm => by rwa [node?_updateInode]) rfl

/-- Bytes can be added to it. -/
theorem append (bytes : Bytes) : (FileSystem.append n bytes : Call ε Unit).Ensures fs'
    fun r fs'' => r = .ok () ∧ NewFile fs fs'' x loc n ∧
      (fs''.inode n).bytes = (fs'.inode n).bytes ++ bytes := by
  by_cases hbytes : bytes = []
  · rw [FileSystem.append, if_pos hbytes]
    exact ⟨rfl, h, by rw [hbytes, List.append_nil]; rfl⟩
  · rw [FileSystem.append, if_neg hbytes]
    refine ⟨rfl, h.updateInode _, ?_⟩
    exact congrArg Inode.bytes (inode_updateInode_self h.lt_length _)

/-- **It can be removed**, and then everything is as it was before it was made. -/
theorem removeFile (hx : x.IsTrim) : (FileSystem.removeFile x).Ensures fs' fun r fs'' =>
    r = .ok () ∧ Intact fs fs'' := by
  obtain ⟨dir, name, rfl, hvacant⟩ := h.vacant
  have hdir : fs'.isDirectoryAt (name :: dir) = false := by
    rw [isDirectoryAt, directoryMode?, h.node]
    rfl
  unfold Call.Ensures
  rw [removeFile_of_usable (endsInDots_of_vacant hvacant) hx.endsInSlash h.named hdir
    (h.outer.mono h.retains.nodesIn)]
  refine ⟨rfl, h.retains.cut h.wellFormed hdir (.inr h.toNamed.free), fun l => ?_⟩
  by_cases hl : l = name :: dir
  · rw [hl, node?_cut_of_within fs' (Location.within_refl _), h.toNamed.free]
  · rw [h.wellFormed.node?_cut_of_ne hdir hl, h.only l hl]

/-- Giving it permissions succeeds. -/
theorem setMode (mode : Mode) : (FileSystem.setMode x mode).apply fs' =
    (.ok (), fs'.updateInode n ({ · with mode })) := by
  rw [setMode_of_find h.found, setModeAt, h.node]

end NewFile

/-- Reading files does not matter to a new file. -/
theorem ignoresReading_newFile (fs : FileSystem) (x : Path) (loc : Location) (n : Nat) :
    IgnoresReading fun fs' => NewFile fs fs' x loc n where
  opened fs' f h :=
    { h with
      retains := (ignoresReading_retains _ fs).opened fs' f h.retains
      only := fun l hl => by rw [node?_openFiles, h.only l hl]
      wellFormed := Quiet.wellFormed ⟨_, rfl⟩ h.wellFormed
      node := by rw [node?_openFiles, h.node]
      named := by rw [locateName_openFiles, h.named]
      found := by rw [find_openFiles, h.found] }
  moved fs' file f hf h :=
    { h with
      retains := (ignoresReading_retains _ fs).moved fs' file f hf h.retains
      only := fun l hl => by rw [node?_openFiles, h.only l hl]
      wellFormed := Quiet.wellFormed ⟨_, rfl⟩ h.wellFormed
      node := by rw [node?_openFiles, h.node]
      named := by rw [locateName_openFiles, h.named]
      found := by rw [find_openFiles, h.found] }

/-- A name that a call would use for a new file is free, if nothing is there. -/
theorem locateName_of_absent (hx : x.IsTrim) (habsent : fs.Absent x) {s : Spot}
    (h : fs.locate .filled x = .ok s) :
    ∃ dir name, s = .vacant dir name ∧ fs.locateName x = .ok (.vacant dir name) := by
  obtain ⟨hcheck, hleads⟩ := locate_eq_ok.mp h
  rw [hx.walkSteps] at hleads
  have hkept {loc : Location} (hk : Leads fs .lookedUp .kept maxLinks (fs.startOf x) x.steps
      (.present loc)) : False := habsent loc (locateName_eq_ok.mpr ⟨hcheck, hk⟩)
  rcases hleads.kept with ⟨loc, hk⟩ | hk
  · exact (hkept hk).elim
  cases s with
  | present loc => exact (hkept hk).elim
  | vacant dir name => exact ⟨dir, name, rfl, locateName_eq_ok.mpr ⟨hcheck, hk⟩⟩

/-- **What is put at a place that was free** is found there. -/
theorem find_of_put (hx : x.IsTrim) {dir : Location} {name : String} {node : Node}
    (hplain : ∀ target, node ≠ .link target) (hloc : fs.locateName x = .ok (.vacant dir name))
    (hshows : Shows fs fs') (hdir : fs'.workingDir = fs.workingDir)
    (hnode : fs'.node? (name :: dir) = some node) : fs'.find true x = .ok (name :: dir) := by
  obtain ⟨hcheck, hleads⟩ := locateName_eq_ok.mp hloc
  rw [find_eq_ok, locate_eq_ok, hx.walkSteps, startOf, hdir, ← startOf]
  exact ⟨hcheck, hleads.fill hshows hnode hplain⟩

/-- **A file is made under a path whose place is free**, and it is empty.  If that fails,
nothing has changed. -/
theorem createFile_newFile (hx : x.IsTrim) (hwf : fs.WellFormed) (habsent : fs.Absent x)
    (mode : Mode) : (createFile x mode).Ensures fs fun
      | .ok n, fs' => ∃ loc, NewFile fs fs' x loc n ∧ fs'.inode n = ⟨mode, []⟩
      | .error _, fs' => fs' = fs := by
  unfold Call.Ensures
  rcases createFile_apply x mode fs with
    ⟨e, h⟩ | ⟨loc, n, hloc, -, h⟩ | ⟨dir, name, hloc, hallows, h⟩
  · rw [h]
  · -- a file that is there already would have been in the way
    obtain ⟨_, _, hs, -⟩ := locateName_of_absent hx habsent hloc
    cases hs
  · rw [h]
    obtain ⟨_, _, hs, hname⟩ := locateName_of_absent hx habsent hloc
    cases hs
    have hleads := (locateName_eq_ok.mp hname).2
    obtain ⟨hdir, hfree⟩ := hleads.of_vacant
    have hproper := hleads.isName_of_vacant fun y hy => (Path.mem_steps hy).2
    have hadd := node?_addInode fs ⟨mode, []⟩
    have hretains : RetainsAll fs
        ((fs.addInode ⟨mode, []⟩).2.put (name :: dir) (.file fs.inodes.length)) :=
      ((Retains.refl fs).addInode _).put (by rwa [hadd]) _
    have hnode := node?_put_self (fs.addInode ⟨mode, []⟩).2 name dir (.file fs.inodes.length)
    refine ⟨name :: dir, ⟨⟨⟨dir, name, rfl, hname⟩, hretains, ?_⟩, usable_of_vacant hname hallows,
      fun l hl => ?_, ?_, Nat.le_refl _, hnode, ?_⟩, inode_addInode_self fs ⟨mode, []⟩⟩
    · have hthere := locateName_of_free hname hretains.nodesIn.shows rfl
      rwa [hnode] at hthere
    · rw [node?_put_of_ne _ _ hl, hadd]
    · refine (hwf.addInode _).put_of_vacant hproper (by rwa [hadd]) (by rwa [hadd]) ?_
      rintro m he
      cases he
      show _ < (fs.inodes ++ [_]).length
      simp
    · exact find_of_put hx (by simp) hname hretains.nodesIn.shows rfl hnode

end Stowage.FileSystem
