import Stowage.Proofs.Files.Retention
import Stowage.Proofs.Path.Parents

/-!
# Below a directory

The calls that unpack an entry walk along paths that continue a directory.  Where they
lead is simple to say as long as the directory is *plain*: there are no links below it,
and every directory there may be used (`Plain`).  The walk along such a path goes to the
directory and then straight down (`Plain.walk_below`), until it has used up the names or
meets a name that is free or a file.

From this follows what the calls do, errors included: where a path leads (`Plain.find`),
that the parent of a place can be made exactly if no file is in the way
(`Plain.makeDirAll_grown`, `Plain.makeDirAll_blocked`), and that no more is made than the
directories that have been missing (`Grown`).
-/

namespace Stowage.FileSystem

open Result Call Stowage.Path

variable {fs fs' : FileSystem} {dots : DotNames} {last : LastName} {root cur : Location}
  {dir p : Path} {n : String} {ns ms rest : List String}

/-! ## One name down -/

section Down
variable (hcur : fs.Usable cur) (hn : IsName n) (hshort : n.utf8ByteSize ≤ maxNameBytes)
  (hrest : rest ≠ [""])
include hcur hn hshort hrest

/-- A name that stands for no link is entered. -/
theorem walk_enter (b : Nat) {node : Node} (hnode : fs.node? (n :: cur) = some node)
    (hplain : ∀ target, node ≠ .link target) :
    fs.walk dots last b cur (n :: rest) = fs.walk dots last b (n :: cur) rest := by
  obtain ⟨mode, hmode, hpass, -⟩ := hcur
  rw [walk_eq, walkOn, directoryMode?_eq_some_iff.mpr hmode]
  cases node with
  | link target => exact absurd rfl (hplain target)
  | _ => simp [hn.ne_empty, hn.ne_dot, hn.ne_up, hpass, hrest, Nat.not_lt.mpr hshort, hnode]

/-- A name that is free ends a walk. -/
theorem walk_free (b : Nat) (hfree : fs.node? (n :: cur) = none) :
    fs.walk dots last b cur (n :: rest) =
      if rest = [] then .ok (.vacant cur n) else .error .notFound := by
  obtain ⟨mode, hmode, hpass, -⟩ := hcur
  rw [walk_eq, walkOn, directoryMode?_eq_some_iff.mpr hmode]
  simp [hn.ne_empty, hn.ne_dot, hn.ne_up, hpass, hrest, Nat.not_lt.mpr hshort, hfree]

end Down

/-! ## Plain directories -/

/-- A path leads to a directory, and would do so without anything that lies in it. -/
def FindsApart (fs : FileSystem) (dir : Path) (root : Location) : Prop :=
  ∃ fs₀, fs₀.find true dir = .ok root ∧ (∀ loc, Location.Inside root loc → fs₀.node? loc = none) ∧
    NodesIn fs₀ fs ∧ fs.workingDir = fs₀.workingDir

/-- **A directory is plain**: the path leads to it, it may be used, and below it there are only
files and directories that may be used. -/
structure Plain (fs : FileSystem) (dir : Path) (root : Location) : Prop where
  wellFormed : fs.WellFormed
  apart : fs.FindsApart dir root
  usable : fs.Usable root
  below : ∀ ns node, ns ≠ [] → fs.node? (ns ++ root) = some node →
    (∃ i, node = .file i) ∨ fs.Usable (ns ++ root)

/-- Some names of a directory, each below the next, can be looked up. -/
def Walkable (ns : List String) : Prop :=
  ∀ n ∈ ns, IsName n ∧ n.utf8ByteSize ≤ maxNameBytes

theorem Walkable.tail (h : Walkable (n :: ns)) : Walkable ns :=
  fun m hm => h m (List.mem_cons_of_mem _ hm)

theorem Walkable.of_suffix (h : Walkable ns) (hms : ms <:+ ns) : Walkable ms :=
  fun m hm => h m (hms.subset hm)

theorem walkable_of_continues (h : Continues dir p ns) : Walkable ns :=
  fun n hn => ⟨h.names n hn, h.short n hn⟩

theorem Walkable.cons_ne (h : Walkable (n :: ns)) (rest : List String) : n :: rest ≠ [""] :=
  fun he => (h n List.mem_cons_self).1.ne_empty (List.cons.inj he).1

/-- Nothing among some names is a file. -/
def Clear (fs : FileSystem) (root : Location) (ns : List String) : Prop :=
  ∀ ms, ms <:+ ns → ∀ i, fs.node? (ms ++ root) ≠ some (.file i)

theorem Clear.tail (h : fs.Clear root (n :: ns)) : fs.Clear root ns :=
  fun ms hms => h ms (hms.trans (List.suffix_cons n ns))

/-- Where no node is, nothing is. -/
theorem vacant_of_nodes (h : ∀ e ∈ fs.nodes, ¬Location.Inside root e.1) :
    ∀ loc, Location.Inside root loc → fs.node? loc = none := by
  intro loc hinside
  cases hnode : fs.node? loc with
  | none => rfl
  | some node =>
    cases loc with
    | nil =>
      obtain ⟨hwithin, hne⟩ := hinside
      exact absurd (List.suffix_nil.mp (List.isSuffixOf_iff_suffix.mp hwithin)).symm hne
    | cons name loc => exact absurd hinside (h _ (mem_nodes_of_node? hnode))

/-- A directory that is empty is plain. -/
theorem plain_of_empty (hwf : fs.WellFormed) (hfind : fs.find true dir = .ok root)
    (husable : fs.Usable root) (hempty : ∀ loc, Location.Inside root loc → fs.node? loc = none) :
    fs.Plain dir root where
  wellFormed := hwf
  apart := ⟨fs, hfind, hempty, .refl fs, rfl⟩
  usable := husable
  below ns node hns hnode := by
    rw [hempty _ (Location.inside_append hns)] at hnode
    cases hnode

namespace Plain
variable (h : fs.Plain dir root)
include h

theorem found : fs.find true dir = .ok root := by
  obtain ⟨fs₀, hfind, -, hin, hdir⟩ := h.apart
  exact find_mono hfind hin.shows hdir

/-- **A plain directory stays plain** when all that changes lies in it, and what is new are
files and directories that may be used. -/
theorem change (hwf : fs'.WellFormed) (hdir : fs'.workingDir = fs.workingDir)
    (hkeep : ∀ loc node, ¬Location.Inside root loc → fs.node? loc = some node →
      fs'.node? loc = some node)
    (hnew : ∀ loc node, fs'.node? loc = some node →
      fs.node? loc = some node ∨ (∃ i, node = .file i) ∨ fs'.Usable loc) : fs'.Plain dir root where
  wellFormed := hwf
  apart := by
    obtain ⟨fs₀, hfind, hempty, hin, hdir'⟩ := h.apart
    refine ⟨fs₀, hfind, hempty, fun loc node hnode => ?_, hdir.trans hdir'⟩
    refine hkeep loc node (fun hinside => ?_) (hin loc node hnode)
    rw [hempty loc hinside] at hnode
    cases hnode
  usable := by
    obtain ⟨mode, hmode, hallows⟩ := h.usable
    exact ⟨mode, hkeep root _ (fun hinside => hinside.2 rfl) hmode, hallows⟩
  below ns node hns hnode := by
    rcases hnew _ node hnode with hold | hfile | husable
    · obtain hfile | ⟨mode, hmode, hallows⟩ := h.below ns node hns hold
      · exact .inl hfile
      · obtain rfl := Option.some.inj (hold.symm.trans hmode)
        exact .inr ⟨mode, hnode, hallows⟩
    · exact .inl hfile
    · exact .inr husable

/-- What lies below the directory is no link. -/
theorem not_link {node : Node} (hnode : fs.node? (ns ++ root) = some node) (target : String) :
    node ≠ .link target := by
  rintro rfl
  by_cases hns : ns = []
  · obtain ⟨mode, hmode, -⟩ := h.usable
    rw [hns, List.nil_append, hmode] at hnode
    cases hnode
  · obtain ⟨i, he⟩ | ⟨mode, hmode, -⟩ := h.below ns _ hns hnode
    · cases he
    · rw [hmode] at hnode
      cases hnode

/-- A directory below may be used. -/
theorem usable_of_directory (hdir : fs.isDirectoryAt (ns ++ root) = true) :
    fs.Usable (ns ++ root) := by
  by_cases hns : ns = []
  · rw [hns]
    exact h.usable
  · obtain ⟨mode, hmode⟩ := isDirectoryAt_iff.mp hdir
    obtain ⟨i, he⟩ | husable := h.below ns _ hns hmode
    · cases he
    · exact husable

/-- What something lies in may be used. -/
theorem usable_above {node : Node} (hnode : fs.node? (n :: ns ++ root) = some node) :
    fs.Usable (ns ++ root) :=
  h.usable_of_directory (isDirectoryAt_iff.mpr (h.wellFormed.parent hnode).2)

/-- **A walk goes straight down** to what is there. -/
theorem walk_below (hns : Walkable ns) (b : Nat) {node : Node}
    (hnode : fs.node? (ns ++ root) = some node) (hrest : rest ≠ [""]) :
    fs.walk dots last b root (ns.reverse ++ rest) = fs.walk dots last b (ns ++ root) rest := by
  induction ns generalizing node rest with
  | nil => rfl
  | cons n ns ih =>
    have hparent := h.usable_above hnode
    obtain ⟨mode, hmode, -⟩ := id hparent
    obtain ⟨hn, hshort⟩ := hns n List.mem_cons_self
    rw [List.reverse_cons, List.append_assoc, List.singleton_append,
      ih hns.tail hmode (hns.cons_ne rest)]
    exact walk_enter hparent hn hshort hrest b hnode (h.not_link hnode)

/-- What is there is found. -/
theorem walk_present (hns : Walkable ns) (b : Nat) {node : Node}
    (hnode : fs.node? (ns ++ root) = some node) :
    fs.walk dots last b root ns.reverse = .ok (.present (ns ++ root)) := by
  have hdown : fs.walk dots last b root (ns.reverse ++ []) = fs.walk dots last b (ns ++ root) [] :=
    h.walk_below hns b hnode (by simp)
  rwa [List.append_nil, walk_of_leads (.arrive b _)] at hdown

/-- **What is missing is missed**, unless a file is in the way. -/
theorem walk_missing (hns : Walkable (n :: ns)) (b : Nat) (hrest : rest ≠ [""])
    (hclear : fs.Clear root ns) (hnode : fs.node? (n :: ns ++ root) = none) :
    fs.walk dots last b root (ns.reverse ++ n :: rest) =
      if rest = [] ∧ fs.isDirectoryAt (ns ++ root) = true then .ok (.vacant (ns ++ root) n)
      else .error .notFound := by
  obtain ⟨hname, hshort⟩ := hns n List.mem_cons_self
  induction ns generalizing n rest with
  | nil =>
    rw [List.reverse_nil, List.nil_append, walk_free h.usable hname hshort hrest b hnode]
    simp [h.usable.isDirectoryAt]
  | cons m ns ih =>
    obtain ⟨hname', hshort'⟩ := hns m (by simp)
    cases hparent : fs.node? (m :: ns ++ root) with
    | none =>
      have hnot : fs.isDirectoryAt (m :: ns ++ root) = false := by
        rw [isDirectoryAt, directoryMode?, hparent]
        rfl
      rw [List.reverse_cons, List.append_assoc, List.singleton_append,
        ih hns.tail (hns.cons_ne rest) hclear.tail hparent hname' hshort', hnot,
        if_neg (by simp), if_neg (by simp)]
    | some node =>
      have hdir : fs.Usable (m :: ns ++ root) := by
        obtain ⟨i, rfl⟩ | husable := h.below (m :: ns) node (by simp) hparent
        · exact absurd hparent (hclear _ (List.suffix_refl _) i)
        · exact husable
      rw [h.walk_below hns.tail b hparent (hns.cons_ne rest),
        walk_free hdir hname hshort hrest b hnode]
      simp only [hdir.isDirectoryAt, and_true]

/-- **A file in the way** stops a walk. -/
theorem walk_blocked (hns : Walkable ns) (b : Nat) {i : Nat}
    (hfile : fs.node? (ns ++ root) = some (.file i)) (hne : rest ≠ []) (hrest : rest ≠ [""]) :
    fs.walk dots last b root (ns.reverse ++ rest) = .error .notDirectory := by
  have hnot : fs.directoryMode? (ns ++ root) = none := by rw [directoryMode?, hfile]
  rw [h.walk_below hns b hfile hrest, walk_of_not_directory hnot b hne, hfile]

/-! ## Paths that continue a plain directory -/

theorem ne_empty : dir ≠ .empty := (canonical_of_find h.found).ne_empty

variable (hp : Continues dir p ns)
include hp

/-- The steps of such a path lead to the directory first. -/
theorem arrives : ∃ stem, p.steps = stem ++ ns.reverse ∧
    Leads fs .lookedUp .followed maxLinks (fs.startOf p) stem (.present root) := by
  obtain ⟨-, hleads⟩ := locate_eq_ok.mp (find_eq_ok.mp h.found)
  obtain ⟨stem, idle, hdir, hidle, hsteps⟩ := hp.steps
  obtain ⟨zs, hwalk, hzs⟩ := idle_walkSteps dir
  refine ⟨stem, hsteps, ?_⟩
  rw [startOf_congr hp.isAbsolute]
  rw [hwalk, hdir, List.append_assoc] at hleads
  by_cases hnil : idle ++ zs = []
  · rwa [hnil, List.append_nil] at hleads
  · obtain ⟨mid, b, hmid, hrest⟩ := hleads.of_append hnil
    have hstays : ∀ m ∈ idle ++ zs, IsIdleStep m := fun m hm =>
      (List.mem_append.mp hm).elim (fun hm => .inr (hidle m hm)) (hzs m)
    rwa [hrest.of_idle hstays]

/-- **The walk along such a path** is one from the directory down. -/
theorem walk_path (hns : ns ≠ []) (dots : DotNames) : ∃ b, ∀ last,
    fs.walk dots last maxLinks (fs.startOf p) p.steps = fs.walk dots last b root ns.reverse := by
  obtain ⟨stem, hsteps, hleads⟩ := h.arrives hp
  have hleads : Leads fs dots .followed maxLinks (fs.startOf p) stem (.present root) := by
    cases dots with
    | lookedUp => exact hleads
    | understood => exact hleads.understood
  obtain ⟨b, hresume⟩ := hleads.resume
  refine ⟨b, fun last => ?_⟩
  rw [hsteps, hresume last ns.reverse (by simpa using hns)]
  rintro ⟨he, -⟩
  have hmem : "" ∈ ns := List.mem_reverse.mp (by rw [he]; simp)
  exact (hp.names _ hmem).ne_empty rfl

theorem locate_path (hns : ns ≠ []) : ∃ b, ∀ last, fs.locate last p =
    (fs.walk .lookedUp last b root ns.reverse).mapError .os := by
  obtain ⟨b, hwalk⟩ := h.walk_path hp hns .lookedUp
  refine ⟨b, fun last => ?_⟩
  rw [locate, hp.check, ok_bind, walkNames, (hp.trim hns).walkSteps, hwalk]

end Plain

/-- Along a trim path, the name is located as the path is. -/
theorem locateName_of_trim (hp : p.IsTrim) : fs.locateName p = fs.locate .kept p := by
  rw [locateName, locate, hp.walkSteps]

namespace Plain
variable (h : fs.Plain dir root) (hp : Continues dir p ns) {node : Node}
include h hp

/-- **What is there** is where the path leads. -/
theorem find (hnode : fs.node? (ns ++ root) = some node) : fs.find true p = .ok (ns ++ root) := by
  rw [find_eq_ok]
  by_cases hns : ns = []
  · subst hns
    obtain ⟨stem, hsteps, hleads⟩ := h.arrives hp
    rw [List.reverse_nil, List.append_nil] at hsteps
    rw [locate_eq_ok, Path.walkSteps, hsteps]
    refine ⟨hp.check, ?_⟩
    cases p.endsInSlash with
    | true => exact hleads.append_slash (isDirectoryAt_iff.mp h.usable.isDirectoryAt)
    | false => simpa using hleads
  · obtain ⟨b, hlocate⟩ := h.locate_path hp hns
    rw [hlocate, h.walk_present (walkable_of_continues hp) b hnode]
    rfl

theorem canonicalize (hnode : fs.node? (ns ++ root) = some node) :
    fs.canonicalize p = .ok (Location.path (ns ++ root)) :=
  canonicalize_eq_ok.mpr ⟨_, rfl, canonical_of_find (h.find hp hnode)⟩

/-- What is there is where the name of the path is. -/
theorem locateName_present (hnode : fs.node? (ns ++ root) = some node) :
    ∃ loc, fs.locateName p = .ok (.present loc) ∧ (ns ≠ [] → loc = ns ++ root) := by
  by_cases hns : ns = []
  · subst hns
    obtain ⟨stem, hsteps, hleads⟩ := h.arrives hp
    rw [List.reverse_nil, List.append_nil] at hsteps
    obtain ⟨loc, hkept⟩ : ∃ loc, Leads fs .lookedUp .kept maxLinks (fs.startOf p) stem
        (.present loc) := hleads.kept.elim id fun h => ⟨root, h⟩
    exact ⟨loc, locateName_eq_ok.mpr ⟨hp.check, hsteps ▸ hkept⟩, fun he => absurd rfl he⟩
  · obtain ⟨b, hlocate⟩ := h.locate_path hp hns
    refine ⟨ns ++ root, ?_, fun _ => rfl⟩
    rw [locateName_of_trim (hp.trim hns), hlocate,
      h.walk_present (walkable_of_continues hp) b hnode]
    rfl

end Plain

section Missing
variable (h : fs.Plain dir root) (hp : Continues dir p (n :: ns))
  (hclear : fs.Clear root ns) (hnode : fs.node? (n :: ns ++ root) = none)
include h hp hclear hnode

/-- **What is missing** leads to a free name, if there is a directory for it, and nowhere
otherwise. -/
theorem Plain.locate_missing (last : LastName) : fs.locate last p =
    if fs.isDirectoryAt (ns ++ root) = true then .ok (.vacant (ns ++ root) n)
    else .error (.os .notFound) := by
  obtain ⟨b, hlocate⟩ := h.locate_path hp (by simp)
  rw [hlocate, List.reverse_cons,
    h.walk_missing (walkable_of_continues hp) b (by simp) hclear hnode]
  by_cases hdir : fs.isDirectoryAt (ns ++ root) = true <;> simp [hdir]

theorem Plain.isPresent_missing : fs.isPresent p = false := by
  rw [isPresent, FileSystem.find]
  simp only [Bool.false_eq_true, if_false]
  rw [h.locate_missing hp hclear hnode]
  by_cases hdir : fs.isDirectoryAt (ns ++ root) = true <;> simp [hdir] <;> rfl

theorem Plain.canonicalize_missing : fs.canonicalize p = .error (.os .notFound) := by
  obtain ⟨u, hcheck, -⟩ := bind_eq_ok.mp hp.check
  obtain ⟨b, hwalk⟩ := h.walk_path hp (by simp) .understood
  rw [FileSystem.canonicalize, hcheck, ok_bind, walkNames, (hp.trim (by simp)).walkSteps, hwalk,
    List.reverse_cons, h.walk_missing (walkable_of_continues hp) b (by simp) hclear hnode]
  by_cases hdir : fs.isDirectoryAt (ns ++ root) = true <;> simp [hdir]

end Missing

/-! ## Checking a parent -/

/-- **A path that no file stands in the way of** lands in the directory. -/
theorem Plain.landing_below (h : fs.Plain dir root) (hp : Continues dir p ns)
    (hclear : fs.Clear root ns) {fuel : Nat} (hfuel : ns.length < fuel) {missing : List String}
    (hmissing : ∀ m ∈ missing, IsName m) :
    ∃ q, fs.landing root.path (p.ancestorsUpTo fuel) (missing.map .name) = .ok (some q) := by
  obtain ⟨rmode, hroot, -⟩ := id h.usable
  induction ns generalizing p fuel missing with
  | nil =>
    obtain ⟨fuel, rfl⟩ : ∃ k, fuel = k + 1 := ⟨fuel - 1, by omega⟩
    have hstarts := (Location.startsWith_path_iff (h.wellFormed.names hroot)
      (h.wellFormed.names hroot) hmissing).mpr
      (Location.within_append _ (Location.within_refl root))
    rw [Path.ancestorsUpTo, landing, h.canonicalize hp hroot, List.nil_append]
    simp [Path.reduce_names, hstarts]
  | cons n ns ih =>
    obtain ⟨fuel, rfl⟩ : ∃ k, fuel = k + 1 := ⟨fuel - 1, by omega⟩
    rw [Path.ancestorsUpTo, landing]
    cases hnode : fs.node? (n :: ns ++ root) with
    | some node =>
      have hwithin := Location.within_append missing.reverse
        (Location.within_append (n :: ns) (Location.within_refl root))
      have hstarts := (Location.startsWith_path_iff (h.wellFormed.names hroot)
        (h.wellFormed.names hnode) hmissing).mpr hwithin
      rw [h.canonicalize hp hnode]
      simp only [Path.reduce_names, List.reverse_reverse]
      rw [if_pos hstarts]
      exact ⟨_, rfl⟩
    | none =>
      obtain ⟨q, hparent, hlast, -, hq⟩ := hp.parent h.ne_empty
      rw [h.canonicalize_missing hp hclear.tail hnode, h.isPresent_missing hp hclear.tail hnode]
      simp only [hparent, hlast, Bool.false_eq_true, if_false]
      have hmissing' : ∀ m ∈ n :: missing, IsName m := by
        intro m hm
        rcases List.mem_cons.mp hm with rfl | hm
        · exact hp.names _ List.mem_cons_self
        · exact hmissing m hm
      exact ih hq hclear.tail (by simpa using hfuel) hmissing'

theorem Plain.resolveUnder_below (h : fs.Plain dir root) (hp : Continues dir p ns)
    (hclear : fs.Clear root ns) : ∃ q, fs.resolveUnder root.path p = .ok (some q) := by
  have hfuel := Nat.lt_succ_of_le (hp.length_le h.ne_empty)
  exact @landing_below _ _ _ _ _ h hp hclear _ hfuel [] (by simp)

/-! ## Making a parent -/

/-- **Directories have been made**, down to one, and nothing else has changed. -/
structure Grown (fs fs' : FileSystem) (dir : Path) (root : Location) (ns : List String) :
    Prop where
  plain : fs'.Plain dir root
  retains : RetainsAll fs fs'
  made : fs'.isDirectoryAt (ns ++ root) = true
  only : ∀ loc, fs'.node? loc = fs.node? loc ∨ fs.node? loc = none ∧
    fs'.isDirectoryAt loc = true ∧ ∃ ms, ms ≠ [] ∧ ms <:+ ns ∧ loc = ms ++ root

theorem Plain.grown (h : fs.Plain dir root) (hdir : fs.isDirectoryAt (ns ++ root) = true) :
    Grown fs fs dir root ns :=
  ⟨h, .refl fs, hdir, fun _ => .inl rfl⟩

/-- What is made in a directory may be used. -/
theorem allows_directoryIn (outer : Mode) : (Mode.directoryIn outer).allows .pass = true ∧
    (Mode.directoryIn outer).allows .write = true := by
  simp only [Mode.allows, Mode.directoryIn, Mode.bitOf, Nat.testBit_or, Bool.or_eq_true]
  exact ⟨.inl (by decide), .inl (by decide)⟩

/-- **One directory is made**, if there is one for it. -/
theorem Plain.ensureDir_grown (h : fs.Plain dir root) (hp : Continues dir p (n :: ns))
    (hclear : fs.Clear root ns) (hfree : fs.node? (n :: ns ++ root) = none)
    (hdir : fs.isDirectoryAt (ns ++ root) = true) :
    ∃ fs', (ensureDir p).apply fs = (.ok (), fs') ∧ Grown fs fs' dir root (n :: ns) := by
  have hloc : fs.locateName p = .ok (.vacant (ns ++ root) n) := by
    rw [locateName_of_trim (hp.trim (by simp)), h.locate_missing hp hclear hfree, if_pos hdir]
  obtain ⟨mode, hallows, hmake⟩ : ∃ mode : Mode, (mode.allows .pass = true ∧
      mode.allows .write = true) ∧
      (makeDir p).apply fs = (.ok (), fs.put (n :: (ns ++ root)) (.directory mode)) := by
    have hwrite := (h.usable_of_directory hdir).allows.2
    refine ⟨_, allows_directoryIn ((fs.directoryMode? (ns ++ root)).getD Mode.directory), ?_⟩
    rw [makeDir, apply_bind, apply_askResult, hloc]
    simp only [apply_bind, apply_demand, hwrite, if_true, apply_ask, apply_change]
  have hself := node?_put_self fs n (ns ++ root) (.directory mode)
  refine ⟨fs.put (n :: (ns ++ root)) (.directory mode), ?_, ?_,
    (Retains.refl fs).put hfree (.directory mode), isDirectoryAt_iff.mpr ⟨_, hself⟩, ?_⟩
  · simp only [ensureDir, apply_bind, apply_outcome, hmake]
    rfl
  · have hwf : (fs.put (n :: (ns ++ root)) (.directory mode)).WellFormed :=
      h.wellFormed.put_of_vacant (hp.names n List.mem_cons_self) (isDirectoryAt_iff.mp hdir) hfree
        (by simp)
    refine h.change hwf rfl (fun loc node _ => nodesIn_put hfree _ loc node) ?_
    intro loc node hnode
    by_cases hloc : loc = n :: (ns ++ root)
    · subst hloc
      exact .inr (.inr ⟨_, hself, hallows⟩)
    · rw [node?_put_of_ne fs _ hloc] at hnode
      exact .inl hnode
  · intro loc
    by_cases hloc : loc = n :: (ns ++ root)
    · subst hloc
      exact .inr ⟨hfree, isDirectoryAt_iff.mpr ⟨_, hself⟩, n :: ns, by simp, List.suffix_refl _,
        rfl⟩
    · exact .inl (node?_put_of_ne fs _ hloc)

namespace Grown
variable {fs₁ fs₂ : FileSystem} (h : Grown fs fs₁ dir root ns)
include h

/-- What has been made stands in no way. -/
theorem clear (hclear : fs.Clear root ms) : fs₁.Clear root ms := by
  intro ks hks i hfile
  rcases h.only (ks ++ root) with hsame | ⟨-, hdir, -⟩
  · exact hclear ks hks i (hsame ▸ hfile)
  · obtain ⟨mode, hmode⟩ := isDirectoryAt_iff.mp hdir
    rw [hmode] at hfile
    cases hfile

/-- What lies deeper is as it was. -/
theorem deeper : fs₁.node? (n :: ns ++ root) = fs.node? (n :: ns ++ root) := by
  rcases h.only (n :: ns ++ root) with hsame | ⟨-, -, ms, -, hms, he⟩
  · exact hsame
  · have hlength := hms.length_le
    rw [← List.append_cancel_right he, List.length_cons] at hlength
    omega

/-- One more directory may be made. -/
theorem cons (h' : Grown fs₁ fs₂ dir root (n :: ns)) : Grown fs fs₂ dir root (n :: ns) where
  plain := h'.plain
  retains := h.retains.trans h'.retains
  made := h'.made
  only loc := by
    rcases h.only loc with hsame | ⟨hfree, hdir, ms, hne, hms, rfl⟩
    · rw [← hsame]
      exact h'.only loc
    · rcases h'.only (ms ++ root) with hsame' | ⟨hfree', -, -⟩
      · refine .inr ⟨hfree, ?_, ms, hne, hms.trans (List.suffix_cons n ns), rfl⟩
        rw [isDirectoryAt, directoryMode?, hsame']
        exact hdir
      · obtain ⟨mode, hmode⟩ := isDirectoryAt_iff.mp hdir
        rw [hfree'] at hmode
        cases hmode

end Grown

/-- The first of some directories is there already. -/
theorem Plain.ensureFirst_present (h : fs.Plain dir root) (hp : Continues dir p ns)
    (hdir : fs.isDirectoryAt (ns ++ root) = true) (outer : List Path) :
    (ensureFirst (p :: outer)).apply fs = (.ok (), fs) := by
  obtain ⟨mode, hmode⟩ := isDirectoryAt_iff.mp hdir
  obtain ⟨loc, hloc, -⟩ := h.locateName_present hp hmode
  refine ensureFirst_of_present hloc ?_ outer
  rw [isDirectory, h.find hp hmode]
  exact hdir

/-- A path that continues a directory by some names has a parent. -/
theorem Plain.has_parent (h : fs.Plain dir root) (hp : Continues dir p (n :: ns)) :
    ¬((p.text = "" || p.parent?.isNone) = true) := by
  obtain ⟨q, hparent, -⟩ := hp.parent h.ne_empty
  have hempty : p.text ≠ "" := fun he =>
    (checkCallPath_eq_ok.mp hp.check).2.1 (congrArg Path.mk he)
  simp [hparent, hempty]

/-- **A parent is made** with all that is missing above it, if no file is in the way. -/
theorem Plain.ensureFirst_grown (h : fs.Plain dir root) (hp : Continues dir p ns)
    (hclear : fs.Clear root ns) {fuel : Nat} (hfuel : ns.length < fuel) :
    ∃ fs', (ensureFirst (p.ancestorsUpTo fuel)).apply fs = (.ok (), fs') ∧
      Grown fs fs' dir root ns := by
  induction ns generalizing p fuel with
  | nil =>
    obtain ⟨fuel, rfl⟩ : ∃ k, fuel = k + 1 := ⟨fuel - 1, by omega⟩
    exact ⟨fs, h.ensureFirst_present hp h.usable.isDirectoryAt _, h.grown h.usable.isDirectoryAt⟩
  | cons n ns ih =>
    obtain ⟨fuel, rfl⟩ : ∃ k, fuel = k + 1 := ⟨fuel - 1, by omega⟩
    by_cases hdir : fs.isDirectoryAt (n :: ns ++ root) = true
    · exact ⟨fs, h.ensureFirst_present hp hdir _, h.grown hdir⟩
    have hfree : fs.node? (n :: ns ++ root) = none := by
      cases hnode : fs.node? (n :: ns ++ root) with
      | none => rfl
      | some node =>
        obtain ⟨i, rfl⟩ | husable := h.below (n :: ns) node (by simp) hnode
        · exact absurd hnode (hclear _ (List.suffix_refl _) i)
        · exact absurd husable.isDirectoryAt hdir
    obtain ⟨q, hparent, -, -, hq⟩ := hp.parent h.ne_empty
    rw [Path.ancestorsUpTo, ensureFirst, if_neg (h.has_parent hp), hparent]
    by_cases hparentDir : fs.isDirectoryAt (ns ++ root) = true
    · obtain ⟨fs', hensure, hgrown⟩ := h.ensureDir_grown hp hclear.tail hfree hparentDir
      refine ⟨fs', ?_, hgrown⟩
      simp only [apply_bind, apply_outcome, hensure]
      rfl
    · -- the parent is missing as well, and is made first
      have hloc : fs.locateName p = .error (.os .notFound) := by
        rw [locateName_of_trim (hp.trim (by simp)), h.locate_missing hp hclear.tail hfree,
          if_neg hparentDir]
      have hensure : (ensureDir p).apply fs = (.error (.os .notFound), fs) := by
        have hmake : (makeDir p).apply fs = (.error (.os .notFound), fs) := by
          rw [makeDir, apply_bind, apply_askResult, hloc]
        simp only [ensureDir, apply_bind, apply_outcome, hmake]
        rfl
      obtain ⟨fs₁, houter, hgrown₁⟩ := ih hq hclear.tail (by simpa using hfuel)
      obtain ⟨fs₂, hensure₂, hgrown₂⟩ := hgrown₁.plain.ensureDir_grown hp
        (hgrown₁.clear hclear.tail) (hgrown₁.deeper.trans hfree) hgrown₁.made
      refine ⟨fs₂, ?_, hgrown₁.cons hgrown₂⟩
      simp only [apply_bind, apply_outcome, hensure, houter, hensure₂]

theorem Plain.makeDirAll_grown (h : fs.Plain dir root) (hp : Continues dir p ns)
    (hclear : fs.Clear root ns) :
    ∃ fs', (makeDirAll p).apply fs = (.ok (), fs') ∧ Grown fs fs' dir root ns :=
  h.ensureFirst_grown hp hclear (Nat.lt_succ_of_le (hp.length_le h.ne_empty))

/-- A file in the way of a directory is reported. -/
theorem Plain.ensureDir_blocked (h : fs.Plain dir root) (hp : Continues dir p ns)
    (hms : ms <:+ ns) {i : Nat} (hfile : fs.node? (ms ++ root) = some (.file i)) :
    ∃ e, e ≠ .notFound ∧ (ensureDir p).apply fs = (.error (.os e), fs) := by
  obtain ⟨below, rfl⟩ := hms
  by_cases hbelow : below = []
  · -- the directory itself is the file
    subst hbelow
    obtain ⟨loc, hloc, -⟩ := h.locateName_present hp hfile
    have hmake : (makeDir p).apply fs = (.error (.os .alreadyExists), fs) := by
      rw [makeDir, apply_bind, apply_askResult, hloc]
      rfl
    have hdir : fs.isDirectory p = false := by
      rw [isDirectory, h.find hp hfile]
      simp [isDirectoryAt, directoryMode?, List.nil_append, hfile]
    refine ⟨.alreadyExists, by decide, ?_⟩
    simp only [ensureDir, apply_bind, apply_outcome, hmake, apply_ask, hdir]
    rfl
  · have hne : below ++ ms ≠ [] := by simp [hbelow]
    have hwalk := walkable_of_continues hp
    have hslash : below.reverse ≠ [""] := by
      intro he
      have hmem : "" ∈ below := List.mem_reverse.mp (by rw [he]; simp)
      exact (hwalk "" (List.mem_append_left _ hmem)).1.ne_empty rfl
    have hloc : fs.locateName p = .error (.os .notDirectory) := by
      obtain ⟨b, hlocate⟩ := h.locate_path hp hne
      rw [locateName_of_trim (hp.trim hne), hlocate, List.reverse_append,
        h.walk_blocked (hwalk.of_suffix (List.suffix_append ..)) b hfile (by simpa using hbelow)
          hslash]
      rfl
    have hmake : (makeDir p).apply fs = (.error (.os .notDirectory), fs) := by
      rw [makeDir, apply_bind, apply_askResult, hloc]
    refine ⟨.notDirectory, by decide, ?_⟩
    simp only [ensureDir, apply_bind, apply_outcome, hmake]
    rfl

/-- **A parent is not made** if a file is in the way. -/
theorem Plain.makeDirAll_blocked (h : fs.Plain dir root) (hp : Continues dir p ns)
    (hms : ms <:+ ns) {i : Nat} (hfile : fs.node? (ms ++ root) = some (.file i)) :
    ∃ e, ((makeDirAll p).apply fs).1 = .error e := by
  have hne : ns ≠ [] := by
    rintro rfl
    obtain ⟨mode, hmode, -⟩ := h.usable
    rw [List.suffix_nil.mp hms, List.nil_append, hmode] at hfile
    cases hfile
  obtain ⟨n, ns, rfl⟩ := List.exists_cons_of_ne_nil hne
  obtain ⟨e, he, hensure⟩ := h.ensureDir_blocked hp hms hfile
  refine ⟨.os e, ?_⟩
  rw [makeDirAll, Path.ancestors, Path.ancestorsUpTo, ensureFirst, if_neg (h.has_parent hp)]
  simp only [apply_bind, apply_outcome, hensure]
  cases e with
  | notFound => exact absurd rfl he
  | _ => rfl

/-! ## The place of a file -/

section Place
variable (h : fs.Plain dir root)
include h

/-- The directory continues itself. -/
theorem Plain.continues_self : Continues dir dir [] where
  components := (List.append_nil _).symm
  isAbsolute := rfl
  names := nofun
  short := nofun
  steps := ⟨dir.steps, [], (List.append_nil _).symm, nofun, (List.append_nil _).symm⟩
  trim hne := absurd rfl hne
  check := (locate_eq_ok.mp (find_eq_ok.mp h.found)).1

/-- Above a directory no file is in the way. -/
theorem Plain.clear_of_directory (hdir : fs.isDirectoryAt (ns ++ root) = true) :
    fs.Clear root ns := by
  rintro ms ⟨below, rfl⟩ i hfile
  obtain ⟨mode, hmode⟩ := isDirectoryAt_iff.mp hdir
  cases below with
  | nil =>
    rw [List.nil_append, hfile] at hmode
    cases hmode
  | cons m below =>
    rw [List.append_assoc] at hmode
    obtain ⟨mode', hmode'⟩ := h.wellFormed.directory_above hmode
    rw [hfile] at hmode'
    cases hmode'

variable (hp : Continues dir p (n :: ns))
include hp

omit h in
/-- Such a path ends in a name. -/
theorem endsInDots_of_continues : endsInDots p = false := by
  obtain ⟨stem, -, -, -, hsteps⟩ := hp.steps
  have hlast : p.steps.getLast? = some n := by rw [hsteps]; simp
  have hname := hp.names n List.mem_cons_self
  rw [endsInDots, hlast]
  simp [Path.isDotName, hname.ne_dot, hname.ne_up]

/-- **A file is removed** from its place, and nothing else. -/
theorem Plain.removeFile_below {i : Nat} (hfile : fs.node? (n :: ns ++ root) = some (.file i)) :
    (removeFile p).apply fs = (.ok (), fs.cut (n :: ns ++ root)) ∧
      (fs.cut (n :: ns ++ root)).Plain dir root ∧
      ∀ loc, loc ≠ n :: ns ++ root → (fs.cut (n :: ns ++ root)).node? loc = fs.node? loc := by
  have hdir : fs.isDirectoryAt (n :: ns ++ root) = false := by
    rw [isDirectoryAt, directoryMode?, hfile]
    rfl
  have hother (loc : Location) (hne : loc ≠ n :: ns ++ root) :
      (fs.cut (n :: ns ++ root)).node? loc = fs.node? loc :=
    h.wellFormed.node?_cut_of_ne hdir hne
  refine ⟨?_, h.change (h.wellFormed.cut _) rfl (fun loc node hout hnode => ?_) ?_, hother⟩
  · obtain ⟨loc, hloc, hat⟩ := h.locateName_present hp hfile
    obtain rfl := hat (by simp)
    exact removeFile_of_usable (endsInDots_of_continues hp) (hp.trim (by simp)).endsInSlash hloc
      hdir (h.usable_above hfile)
  · rw [hother loc ?_, hnode]
    rintro rfl
    exact hout (Location.inside_append (by simp))
  · intro loc node hnode
    exact .inl (nodesIn_cut fs _ _ _ hnode)

/-- **A file can be made** at a place that is free. -/
theorem Plain.createFile_below (hdir : fs.isDirectoryAt (ns ++ root) = true)
    (hfree : fs.node? (n :: ns ++ root) = none) (mode : Mode) :
    ∃ i fs', (createFile p mode).apply fs = (.ok i, fs') := by
  have hloc := h.locate_missing hp (h.clear_of_directory hdir) hfree .filled
  rw [if_pos hdir] at hloc
  have hwrite := (h.usable_of_directory hdir).allows.2
  refine ⟨fs.inodes.length, (fs.addInode ⟨mode, []⟩).2.put (n :: (ns ++ root))
    (.file fs.inodes.length), ?_⟩
  rw [createFile, apply_bind, apply_askResult, hloc]
  simp only [apply_bind, apply_demand, hwrite, if_true, apply_ask, apply_change, apply_pure]

end Place

end Stowage.FileSystem
