import Stowage.Proofs.Path.Names
import Stowage.Files.Call

/-!
# Nodes and what changes them

Four operations change what a file system holds: `put`, `cut`, `addInode` and
`updateInode`.  For each of them this module says what it does to `node?` and to
`entry?`, and that it keeps a file system well formed.

A file system is *well formed* (`WellFormed`) when every node lies in a directory and
has a proper name, and every file has an inode.  Without this a location would say
little: a file might lie below another one, or share the content of a file that is yet
to be made.

What a call does is stated with `ChangedOnly P`: it has made, changed and removed
nodes at locations that fulfil `P` only, everything it has touched is in the journal,
and whatever is not there is as it was.
-/

namespace Stowage.FileSystem

variable {fs fs' fs'' : FileSystem} {loc loc' : Location} {node : Node}

/-! ## Looking up -/

theorem lookup_eq_none_of_not_mem {nodes : List (Location × Node)}
    (h : ∀ e ∈ nodes, e.1 ≠ loc) : nodes.lookup loc = none := by
  rw [List.lookup_eq_none_iff]
  intro e he
  simpa using (h e he).symm

theorem mem_of_lookup {nodes : List (Location × Node)} (h : nodes.lookup loc = some node) :
    (loc, node) ∈ nodes := by
  obtain ⟨l₁, l₂, rfl, -⟩ := List.lookup_eq_some_iff.mp h
  simp

theorem lookup_filter {nodes : List (Location × Node)} {k : Location → Bool}
    (h : k loc = true) :
    (nodes.filter fun e => k e.1).lookup loc = nodes.lookup loc := by
  induction nodes with
  | nil => rfl
  | cons e nodes ih =>
    obtain ⟨l, n⟩ := e
    by_cases hl : loc = l
    · subst hl
      rw [List.filter_cons, if_pos h, List.lookup_cons_self, List.lookup_cons_self]
    · have hl' : (loc == l) = false := by simpa using hl
      rw [List.lookup_cons, hl', List.filter_cons]
      split
      · rw [List.lookup_cons, hl', ih]
      · rw [ih]

theorem mem_nodes_of_node? {name : String} (h : fs.node? (name :: loc) = some node) :
    (name :: loc, node) ∈ fs.nodes :=
  mem_of_lookup h

@[simp] theorem node?_nil (fs : FileSystem) :
    fs.node? [] = some (.directory Mode.directory) := rfl

theorem directoryMode?_eq_some_iff {mode : Mode} :
    fs.directoryMode? loc = some mode ↔ fs.node? loc = some (.directory mode) := by
  unfold directoryMode?
  cases fs.node? loc with
  | none => simp
  | some node => cases node <;> simp

theorem directoryMode?_eq_none (h : ¬∃ mode, fs.node? loc = some (.directory mode)) :
    fs.directoryMode? loc = none :=
  Option.eq_none_iff_forall_ne_some.mpr fun mode hm => h ⟨mode, directoryMode?_eq_some_iff.mp hm⟩

theorem isDirectoryAt_iff :
    fs.isDirectoryAt loc = true ↔ ∃ mode, fs.node? loc = some (.directory mode) := by
  simp only [isDirectoryAt, Option.isSome_iff_exists, directoryMode?_eq_some_iff]

/-! ## What the operations do to nodes -/

theorem node?_put_self (fs : FileSystem) (name : String) (dir : Location) (node : Node) :
    (fs.put (name :: dir) node).node? (name :: dir) = some node :=
  List.lookup_cons_self

theorem node?_put_of_ne (fs : FileSystem) (node : Node) (h : loc' ≠ loc) :
    (fs.put loc node).node? loc' = fs.node? loc' := by
  cases loc' with
  | nil => rfl
  | cons name dir =>
    have hb : (name :: dir == loc) = false := by simpa using h
    show List.lookup _ ((loc, node) :: fs.nodes.filter fun e => e.1 != loc) = fs.nodes.lookup _
    rw [List.lookup_cons, hb]
    exact lookup_filter (k := fun l => l != loc) (by simpa using h)

theorem node?_cut_of_not_within (fs : FileSystem) (h : Location.within loc loc' = false) :
    (fs.cut loc).node? loc' = fs.node? loc' := by
  cases loc' with
  | nil => rfl
  | cons name dir =>
    exact lookup_filter (k := fun l => !Location.within loc l) (by simpa using h)

theorem node?_cut_of_within (fs : FileSystem) {name : String} {dir : Location}
    (h : Location.within loc (name :: dir) = true) : (fs.cut loc).node? (name :: dir) = none := by
  refine lookup_eq_none_of_not_mem fun e he heq => ?_
  have := (List.mem_filter.mp he).2
  rw [heq, h] at this
  cases this

theorem node?_updateInode (fs : FileSystem) (n : Nat) (f : Inode → Inode) (loc : Location) :
    (fs.updateInode n f).node? loc = fs.node? loc := by
  cases loc <;> rfl

theorem node?_addInode (fs : FileSystem) (content : Inode) (loc : Location) :
    (fs.addInode content).2.node? loc = fs.node? loc := by
  cases loc <;> rfl

/-- Every node of one file system is one of another. -/
def NodesIn (fs fs' : FileSystem) : Prop :=
  ∀ loc node, fs.node? loc = some node → fs'.node? loc = some node

theorem NodesIn.refl (fs : FileSystem) : NodesIn fs fs := fun _ _ h => h

theorem NodesIn.trans (h : NodesIn fs fs') (h' : NodesIn fs' fs'') : NodesIn fs fs'' :=
  fun loc node hn => h' loc node (h loc node hn)

theorem nodesIn_put (h : fs.node? loc = none) (node : Node) : NodesIn fs (fs.put loc node) := by
  intro loc' node' hn
  rw [node?_put_of_ne fs node (by rintro rfl; rw [h] at hn; cases hn), hn]

theorem nodesIn_cut (fs : FileSystem) (loc : Location) : NodesIn (fs.cut loc) fs := by
  intro loc' node' hn
  cases loc' with
  | nil => exact hn
  | cons name dir =>
    cases hw : Location.within loc (name :: dir) with
    | true => rw [node?_cut_of_within fs hw] at hn; cases hn
    | false => rw [← hn, node?_cut_of_not_within fs hw]

/-! ## Well-formed file systems -/

/-- Every node has a proper name and lies in a directory, and every file has an inode. -/
structure WellFormed (fs : FileSystem) : Prop where
  rooted : ∀ e ∈ fs.nodes, ∀ name dir, e.1 = name :: dir →
    IsName name ∧ fs.isDirectoryAt dir = true
  stored : ∀ e ∈ fs.nodes, ∀ n, e.2 = .file n → n < fs.inodes.length
  working : ∀ name ∈ fs.workingDir, IsName name

/-- What `WellFormed` asks of a single node. -/
def FitsIn (fs : FileSystem) (e : Location × Node) : Bool :=
  (match e.1 with
    | name :: dir => decide (IsName name) && fs.isDirectoryAt dir
    | [] => true) &&
  match e.2 with
    | .file n => n < fs.inodes.length
    | _ => true

instance (fs : FileSystem) : Decidable fs.WellFormed :=
  decidable_of_iff (fs.nodes.all fs.FitsIn = true ∧ ∀ name ∈ fs.workingDir, IsName name) <| by
    constructor
    · rintro ⟨h, hw⟩
      have hfit (e) (he : e ∈ fs.nodes) := List.all_eq_true.mp h e he
      refine ⟨fun e he name dir heq => ?_, fun e he n heq => ?_, hw⟩
      · simpa [heq] using (Bool.and_eq_true_iff.mp (hfit e he)).1
      · simpa [heq] using (Bool.and_eq_true_iff.mp (hfit e he)).2
    · rintro ⟨hr, hs, hw⟩
      refine ⟨List.all_eq_true.mpr fun e he => Bool.and_eq_true_iff.mpr ⟨?_, ?_⟩, hw⟩
      · split
        · rename_i name dir heq
          simpa using hr e he name dir heq
        · rfl
      · split
        · rename_i n heq
          simpa using hs e he n heq
        · rfl

namespace WellFormed
variable (hwf : fs.WellFormed)
include hwf

theorem parent {name : String} {dir : Location} (h : fs.node? (name :: dir) = some node) :
    IsName name ∧ ∃ mode, fs.node? dir = some (.directory mode) :=
  let ⟨hname, hdir⟩ := hwf.rooted _ (mem_nodes_of_node? h) name dir rfl
  ⟨hname, isDirectoryAt_iff.mp hdir⟩

/-- All names of a location that holds something are proper. -/
theorem names (h : fs.node? loc = some node) : ∀ name ∈ loc, IsName name := by
  induction loc generalizing node with
  | nil => exact fun _ hn => absurd hn List.not_mem_nil
  | cons name dir ih =>
    obtain ⟨hname, mode, hdir⟩ := hwf.parent h
    intro n hn
    rcases List.mem_cons.mp hn with rfl | hn
    · exact hname
    · exact ih hdir n hn

/-- What a node lies below is a directory. -/
theorem directory_above {names : List String} {name : String}
    (h : fs.node? (name :: (names ++ loc)) = some node) :
    ∃ mode, fs.node? loc = some (.directory mode) := by
  induction names generalizing name node with
  | nil => exact (hwf.parent h).2
  | cons n names ih =>
    obtain ⟨mode, hdir⟩ := (hwf.parent h).2
    exact ih hdir

/-- Nothing lies below what is no directory. -/
theorem eq_of_within (h : fs.node? loc' = some node) (hw : Location.within loc loc' = true)
    (hdir : ∀ mode, fs.node? loc ≠ some (.directory mode)) : loc' = loc := by
  obtain ⟨names, rfl⟩ := Location.within_iff.mp hw
  cases names with
  | nil => rfl
  | cons name names =>
    obtain ⟨mode, hmode⟩ := hwf.directory_above h
    exact absurd hmode (hdir mode)

/-- Removing what is no directory leaves all other nodes. -/
theorem node?_cut_of_ne (hdir : fs.isDirectoryAt loc = false) (hne : loc' ≠ loc) :
    (fs.cut loc).node? loc' = fs.node? loc' := by
  cases hw : Location.within loc loc' with
  | false => exact node?_cut_of_not_within fs hw
  | true =>
    cases hnode : fs.node? loc' with
    | some node =>
      refine absurd (hwf.eq_of_within hnode hw fun mode hmode => ?_) hne
      rw [isDirectoryAt_iff.mpr ⟨mode, hmode⟩] at hdir
      cases hdir
    | none =>
      cases hcut : (fs.cut loc).node? loc' with
      | none => rfl
      | some node => rw [nodesIn_cut fs _ _ _ hcut] at hnode; cases hnode

theorem put_of_vacant {name : String} {dir : Location} (hname : IsName name)
    (hdir : ∃ mode, fs.node? dir = some (.directory mode)) (hfree : fs.node? (name :: dir) = none)
    (hnode : ∀ n, node = .file n → n < fs.inodes.length) :
    (fs.put (name :: dir) node).WellFormed := by
  have hkeep {l : Location} (h : fs.isDirectoryAt l = true) :
      (fs.put (name :: dir) node).isDirectoryAt l = true := by
    obtain ⟨mode, hmode⟩ := isDirectoryAt_iff.mp h
    exact isDirectoryAt_iff.mpr ⟨mode, nodesIn_put hfree node _ _ hmode⟩
  refine ⟨fun e he n d heq => ?_, fun e he n heq => ?_, hwf.working⟩
  · rcases List.mem_cons.mp he with rfl | he
    · obtain ⟨rfl, rfl⟩ := List.cons.inj heq
      exact ⟨hname, hkeep (isDirectoryAt_iff.mpr hdir)⟩
    · obtain ⟨hn, hd⟩ := hwf.rooted e (List.mem_filter.mp he).1 n d heq
      exact ⟨hn, hkeep hd⟩
  · rcases List.mem_cons.mp he with rfl | he
    · exact hnode n heq
    · exact hwf.stored e (List.mem_filter.mp he).1 n heq

theorem cut (loc : Location) : (fs.cut loc).WellFormed := by
  refine ⟨fun e he name dir heq => ?_, fun e he n heq => ?_, hwf.working⟩
  · obtain ⟨he, hout⟩ := List.mem_filter.mp he
    obtain ⟨hname, hdir⟩ := hwf.rooted e he name dir heq
    refine ⟨hname, ?_⟩
    have hout' : Location.within loc dir = false := by
      cases hw : Location.within loc dir with
      | false => rfl
      | true =>
        rw [heq, Location.within_cons name hw] at hout
        cases hout
    rwa [isDirectoryAt, directoryMode?, node?_cut_of_not_within fs hout']
  · exact hwf.stored e (List.mem_filter.mp he).1 n heq

theorem updateInode (n : Nat) (f : Inode → Inode) : (fs.updateInode n f).WellFormed := by
  refine ⟨fun e he name dir heq => ?_, fun e he m heq => ?_, hwf.working⟩
  · obtain ⟨hname, hdir⟩ := hwf.rooted e he name dir heq
    refine ⟨hname, ?_⟩
    rwa [isDirectoryAt, directoryMode?, node?_updateInode]
  · show m < (fs.inodes.modify n f).length
    rw [List.length_modify]
    exact hwf.stored e he m heq

theorem addInode (content : Inode) : (fs.addInode content).2.WellFormed := by
  refine ⟨fun e he name dir heq => ?_, fun e he m heq => ?_, hwf.working⟩
  · obtain ⟨hname, hdir⟩ := hwf.rooted e he name dir heq
    refine ⟨hname, ?_⟩
    rwa [isDirectoryAt, directoryMode?, node?_addInode]
  · show m < (fs.inodes ++ [content]).length
    rw [List.length_append]
    exact Nat.lt_of_lt_of_le (hwf.stored e he m heq) (Nat.le_add_right ..)

theorem lt_length_of_file {n : Nat} (h : fs.node? loc = some (.file n)) :
    n < fs.inodes.length := by
  cases loc with
  | nil => cases h
  | cons name dir => exact hwf.stored _ (mem_nodes_of_node? h) n rfl

end WellFormed

/-! ## Changes and the journal -/

/-- **All that has been made, changed or removed** between two file systems is in the
journal and fulfils `P`; everything else is as it was. -/
structure ChangedOnly (P : Location → Prop) (fs fs' : FileSystem) : Prop where
  touched : ∃ touched, fs'.journal = touched ++ fs.journal ∧ (∀ loc ∈ touched, P loc) ∧
    ∀ loc, loc ∉ touched → fs'.entry? loc = fs.entry? loc
  workingDir : fs'.workingDir = fs.workingDir

namespace ChangedOnly
variable {P Q : Location → Prop}

theorem refl (fs : FileSystem) : ChangedOnly P fs fs :=
  ⟨⟨[], rfl, by simp, fun _ _ => rfl⟩, rfl⟩

theorem trans (h : ChangedOnly P fs fs') (h' : ChangedOnly P fs' fs'') :
    ChangedOnly P fs fs'' := by
  obtain ⟨⟨ts, hj, hp, he⟩, hw⟩ := h
  obtain ⟨⟨ts', hj', hp', he'⟩, hw'⟩ := h'
  refine ⟨⟨ts' ++ ts, by rw [hj', hj, List.append_assoc], fun loc hl => ?_, fun loc hl => ?_⟩,
    hw'.trans hw⟩
  · exact (List.mem_append.mp hl).elim (hp' loc) (hp loc)
  · rw [List.mem_append, not_or] at hl
    rw [he' loc hl.1, he loc hl.2]

theorem mono (h : ChangedOnly P fs fs') (hpq : ∀ loc, P loc → Q loc) : ChangedOnly Q fs fs' := by
  obtain ⟨⟨ts, hj, hp, he⟩, hw⟩ := h
  exact ⟨⟨ts, hj, fun loc hl => hpq loc (hp loc hl), he⟩, hw⟩

/-- A location that may not be touched holds what it held. -/
theorem entry? (h : ChangedOnly P fs fs') (hp : ¬P loc) : fs'.entry? loc = fs.entry? loc := by
  obtain ⟨⟨ts, -, hts, he⟩, -⟩ := h
  exact he loc fun hl => hp (hts loc hl)

end ChangedOnly

section Operations
variable {P : Location → Prop}

theorem inode_addInode {n : Nat} (h : n < fs.inodes.length) (content : Inode) :
    (fs.addInode content).2.inode n = fs.inode n := by
  show ((fs.inodes ++ [content])[n]?).getD _ = (fs.inodes[n]?).getD _
  rw [List.getElem?_append_left h]

theorem inode_updateInode_of_ne {n m : Nat} (h : m ≠ n) (f : Inode → Inode) :
    (fs.updateInode n f).inode m = fs.inode m := by
  show ((fs.inodes.modify n f)[m]?).getD _ = (fs.inodes[m]?).getD _
  rw [List.getElem?_modify_ne f fs.inodes (Ne.symm h)]

theorem changedOnly_put (node : Node) (h : P loc) : ChangedOnly P fs (fs.put loc node) := by
  refine ⟨⟨[loc], rfl, by simpa using h, fun l hl => ?_⟩, rfl⟩
  have hne : l ≠ loc := by simpa using hl
  simp only [FileSystem.entry?, node?_put_of_ne fs node hne]
  rfl

theorem changedOnly_cut (h : ∀ l ∈ fs.locationsUnder loc, P l) :
    ChangedOnly P fs (fs.cut loc) := by
  refine ⟨⟨fs.locationsUnder loc, rfl, h, fun l hl => ?_⟩, rfl⟩
  cases hw : Location.within loc l with
  | false => simp only [FileSystem.entry?, node?_cut_of_not_within fs hw]; rfl
  | true =>
    cases l with
    | nil => rfl
    | cons name dir =>
      have hnone : fs.node? (name :: dir) = none := by
        cases hn : fs.node? (name :: dir) with
        | none => rfl
        | some node =>
          refine absurd (List.mem_map.mpr ⟨_, List.mem_filter.mpr ⟨mem_nodes_of_node? hn, ?_⟩,
            rfl⟩) hl
          exact hw
      simp only [FileSystem.entry?, node?_cut_of_within fs hw, hnone, Option.map_none]

theorem changedOnly_updateInode {n : Nat} (f : Inode → Inode)
    (h : ∀ l ∈ fs.locationsOf n, P l) : ChangedOnly P fs (fs.updateInode n f) := by
  refine ⟨⟨fs.locationsOf n, rfl, h, fun l hl => ?_⟩, rfl⟩
  simp only [FileSystem.entry?, node?_updateInode]
  cases l with
  | nil => rfl
  | cons name dir =>
    cases hn : fs.node? (name :: dir) with
    | none => rfl
    | some node =>
      cases node with
      | directory mode => rfl
      | link target => rfl
      | file m =>
        have hne : m ≠ n := by
          rintro rfl
          exact hl (List.mem_map.mpr
            ⟨_, List.mem_filter.mpr ⟨mem_nodes_of_node? hn, by simp⟩, rfl⟩)
        simp only [Option.map_some, inode_updateInode_of_ne hne]

theorem changedOnly_addInode (hwf : fs.WellFormed) (content : Inode) :
    ChangedOnly P fs (fs.addInode content).2 := by
  refine ⟨⟨[], rfl, by simp, fun l _ => ?_⟩, rfl⟩
  simp only [FileSystem.entry?, node?_addInode]
  cases hn : fs.node? l with
  | none => rfl
  | some node =>
    cases node with
    | directory mode => rfl
    | link target => rfl
    | file m => simp only [Option.map_some, inode_addInode (hwf.lt_length_of_file hn)]

/-- In a well-formed file system, only a directory has something below it. -/
theorem mem_locationsUnder (hwf : fs.WellFormed)
    (hdir : ∀ mode, fs.node? loc ≠ some (.directory mode)) (h : loc' ∈ fs.locationsUnder loc) :
    loc' = loc := by
  obtain ⟨e, he, rfl⟩ := List.mem_map.mp h
  obtain ⟨he, hw⟩ := List.mem_filter.mp he
  rcases hl : e.1 with _ | ⟨name, dir⟩
  · rw [hl, Location.within_iff, List.suffix_nil] at hw
    rw [hw]
  · rw [hl, Location.within_iff, List.suffix_cons_iff] at hw
    rcases hw with hw | hw
    · rw [hw]
    · obtain ⟨mode, hmode⟩ := isDirectoryAt_iff.mp (hwf.rooted e he name dir hl).2
      have := hwf.eq_of_within hmode (Location.within_iff.mpr hw) hdir
      exact absurd (this ▸ hmode) (hdir mode)

end Operations
end Stowage.FileSystem
