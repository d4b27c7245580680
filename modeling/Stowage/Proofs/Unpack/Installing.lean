import Stowage.Proofs.Files.Below
import Stowage.Proofs.Unpack.Placing

/-!
# Installing a file in a plain directory

In a plain directory it can be said exactly when an entry is unpacked that is a regular
file, and what this comes to.  Its payload must decode, no file may stand where the entry
needs a directory, and no directory at its own place (`Archive.unpack_plain`).  Then the
file is put there with its payload, and besides it nothing is new but the directories
above it (`Installed`).

Each step of the unpacking has a lemma: the parent (`prepareParent_plain`), the place
(`clearTarget_plain`) and the file (`writeFile_plain`).
-/

namespace Stowage

open FileSystem Result Call Stowage.Path

variable {fs fs' : FileSystem} {root : Location} {dir p x : Path} {n : String} {ns : List String}
  {a : Archive} {r : Record}

/-- **A file has been installed** below a plain directory: it is there with its content, what
has been there is kept, and what is new are directories above it. -/
structure Installed (fs fs' : FileSystem) (dir : Path) (root : Location) (ns : List String)
    (content : Inode) : Prop where
  plain : fs'.Plain dir root
  retains : RetainsBut (ns ++ root) fs fs'
  file : ∃ i, fs'.node? (ns ++ root) = some (.file i) ∧ fs'.inode i = content
  only : ∀ loc, loc ≠ ns ++ root → fs'.node? loc = fs.node? loc ∨
    fs'.isDirectoryAt loc = true ∧ ∃ ms, ms ≠ [] ∧ ms <:+ ns ∧ ms ≠ ns ∧ loc = ms ++ root

/-- A place has been cleared: there is nothing, and the rest is as it was. -/
structure Freed (fs fs' : FileSystem) (dir : Path) (root loc : Location) : Prop where
  plain : fs'.Plain dir root
  free : fs'.node? loc = none
  retains : RetainsBut loc fs fs'
  other : ∀ l, l ≠ loc → fs'.node? l = fs.node? l

/-- A file that is installed where a place has been made ready for it is installed. -/
theorem Installed.of_ready {fs₁ fs₂ : FileSystem} {content : Inode}
    (hgrown : Grown fs fs₁ dir root ns) (hfreed : Freed fs₁ fs₂ dir root (n :: ns ++ root))
    (h : Installed fs₂ fs' dir root (n :: ns) content) :
    Installed fs fs' dir root (n :: ns) content where
  plain := h.plain
  retains := (Retains.trans (.of_all hgrown.retains) hfreed.retains).trans h.retains
  file := h.file
  only loc hne := by
    rcases h.only loc hne with hsame | hnew
    · rw [hfreed.other loc hne] at hsame
      rcases hgrown.only loc with hsame' | ⟨-, hdir, ms, hms, hsuffix, he⟩
      · exact .inl (hsame.trans hsame')
      · refine .inr ⟨?_, ms, hms, hsuffix.trans (List.suffix_cons n ns), ?_, he⟩
        · rwa [isDirectoryAt, directoryMode?, hsame]
        · rintro rfl
          have hlength := hsuffix.length_le
          rw [List.length_cons] at hlength
          omega
    · exact .inr hnew

namespace Archive

section

variable [Zlib.Inflater]

/-- **When an entry can be installed** below a directory: its payload decodes, no file stands
above its place, and no directory in it. -/
structure CanInstall (a : Archive) (r : Record) (fs : FileSystem) (root : Location) (n : String)
    (ns : List String) : Prop where
  decodes : ∃ count, (a.decoding r fs).result = .ok count
  clear : fs.Clear root ns
  vacant : fs.isDirectoryAt (n :: ns ++ root) = false

/-- **What installing an entry comes to**: it succeeds if it can, and then the file is there. -/
def Installs {ε α : Type} (a : Archive) (r : Record) (fs : FileSystem) (dir : Path)
    (root : Location) (n : String) (ns : List String) (result : Except ε α) (fs' : FileSystem) :
    Prop :=
  ((∃ y, result = .ok y) ↔ a.CanInstall r fs root n ns) ∧ ∀ y, result = .ok y →
    Installed fs fs' dir root (n :: ns) ⟨unpackedMode r.kind, (a.decoding r fs).output⟩

theorem installs_error {ε α : Type} {e : ε} (h : ¬a.CanInstall r fs root n ns) :
    a.Installs r fs dir root n ns (.error e : Except ε α) fs' :=
  ⟨⟨fun ⟨_, he⟩ => (by cases he), fun hcan => absurd hcan h⟩, fun _ he => by cases he⟩

/-- **A payload that decodes is written** to a new file. -/
theorem writeFile_succeeds (hx : x.IsTrim) (hwf : fs.WellFormed) (habsent : fs.Absent x)
    {i : Nat} (hcreate : (createFile x Mode.file).apply fs = (.ok i, fs')) {count : Nat}
    (hopen : fs.HasOpen a.file) (hresult : (a.decoding r fs).result = .ok count) :
    ((a.writeFile r x).apply fs).1 = .ok () := by
  have hcreated := createFile_newFile hx hwf habsent Mode.file
  unfold Call.Ensures at hcreated
  rw [hcreate] at hcreated
  obtain ⟨loc, hnew, -⟩ := hcreated
  rw [← decoding_retained hopen hnew.retains r] at hresult
  have hwrite : (a.writeFile r x).Ensures fs fun result _ => result = .ok () := by
    refine Ensures.bind (R := fun result fs₁ => result = .ok i ∧ fs₁ = fs') ?_ ?_ (by simp)
    · unfold Call.Ensures
      rw [FileSystem.Call.plainly, apply_withError, hcreate]
      exact ⟨rfl, rfl⟩
    rintro j fs₁ ⟨he, rfl⟩
    obtain rfl := Except.ok.inj he
    refine Ensures.bind (R := fun result fs₂ => result = .ok (a.decoding r fs₁) ∧
      NewFile fs fs₂ x loc j) ⟨stream_result a r fs₁, onlyReads_stream a r _
        (ignoresReading_newFile fs x loc j) fs₁ hnew⟩ ?_ (by simp)
    rintro d fs₂ ⟨hd, hnew₂⟩
    obtain rfl := Except.ok.inj hd
    refine (hnew₂.append (a.decoding r fs₁).output).bind ?_ (by simp)
    rintro - fs₃ ⟨-, hnew₃, -⟩
    rw [hresult]
    unfold Call.Ensures
    rw [FileSystem.Call.plainly, apply_withError, hnew₃.setMode (unpackedMode r.kind)]
    rfl
  exact hwrite

/-! ## The steps -/

end

section Steps
variable (h : fs.Plain dir root) (hx : Continues dir x (n :: ns))
include h hx

/-- **The parent of a place** is made if no file is in the way, and not otherwise. -/
theorem prepareParent_plain (name : String) :
    (prepareParent root.path x name).Ensures fs fun
      | .ok _, fs' => Grown fs fs' dir root ns ∧ fs.Clear root ns
      | .error _, _ => ¬fs.Clear root ns := by
  obtain ⟨p, hparent, -, -, hp⟩ := hx.parent h.ne_empty
  unfold Call.Ensures
  rw [prepareParent, hparent]
  simp only [FileSystem.Call.plainly, apply_bind, apply_withError, apply_askResult]
  by_cases hclear : fs.Clear root ns
  · obtain ⟨q, hq⟩ := h.resolveUnder_below hp hclear
    obtain ⟨fs', hmake, hgrown⟩ := h.makeDirAll_grown hp hclear
    simp [hq, hmake, hgrown, hclear]
  · obtain ⟨ms, hms, i, hfile⟩ : ∃ ms, ms <:+ ns ∧ ∃ i, fs.node? (ms ++ root) = some (.file i) := by
      simpa [FileSystem.Clear] using hclear
    obtain ⟨e, hmake⟩ := h.makeDirAll_blocked hp hms hfile
    cases fs.resolveUnder root.path p with
    | error e' => exact hclear
    | ok answer =>
      cases answer with
      | none => exact hclear
      | some q => simp [hmake, hclear]

/-- **The place is cleared** if there is no directory, and not otherwise. -/
theorem clearTarget_plain {policy : UnpackPolicy} (hlenient : policy.strict = false)
    (hdir : fs.isDirectoryAt (ns ++ root) = true) :
    (clearTarget x policy).Ensures fs fun
      | .ok _, fs' => Freed fs fs' dir root (n :: ns ++ root) ∧
        fs.isDirectoryAt (n :: ns ++ root) = false
      | .error _, _ => fs.isDirectoryAt (n :: ns ++ root) = true := by
  refine Ensures.ask ?_
  cases hnode : fs.node? (n :: ns ++ root) with
  | none =>
    rw [h.isPresent_missing hx (h.clear_of_directory hdir) hnode]
    refine ⟨⟨h, hnode, .refl fs, fun _ _ => rfl⟩, ?_⟩
    rw [isDirectoryAt, directoryMode?, hnode]
    rfl
  | some node =>
    obtain ⟨loc, hloc, hat⟩ := h.locateName_present hx hnode
    obtain rfl := hat (by simp)
    have hpresent : fs.isPresent x = true := by
      rw [isPresent, FileSystem.find]
      simp only [Bool.false_eq_true, if_false]
      rw [← locateName_of_trim (hx.trim (by simp)), hloc]
      rfl
    simp only [hpresent, if_true, hlenient, Bool.false_eq_true, if_false, FileSystem.Call.plainly]
    unfold Call.Ensures
    obtain ⟨i, rfl⟩ | husable := h.below (n :: ns) node (by simp) hnode
    · obtain ⟨hremove, hplain, hother⟩ := h.removeFile_below hx hnode
      have hfile : fs.isDirectoryAt (n :: ns ++ root) = false := by
        rw [isDirectoryAt, directoryMode?, hnode]
        rfl
      rw [apply_withError, hremove]
      exact ⟨⟨hplain, node?_cut_of_within fs (Location.within_refl _),
        (Retains.refl fs).cut h.wellFormed hfile (.inl rfl), hother⟩, hfile⟩
    · rcases removeFile_apply x fs with ⟨e, he⟩ | ⟨loc, hloc', hfile, -⟩
      · rw [apply_withError, he]
        exact husable.isDirectoryAt
      · obtain rfl := Spot.present.inj (Except.ok.inj (hloc.symm.trans hloc'))
        rw [husable.isDirectoryAt] at hfile
        cases hfile

/-- **The file is written** to its place if the payload decodes, and not otherwise. -/
theorem writeFile_plain [Zlib.Inflater] (hopen : fs.HasOpen a.file)
    (hdir : fs.isDirectoryAt (ns ++ root) = true) (hfree : fs.node? (n :: ns ++ root) = none) :
    (a.writeFile r x).Ensures fs fun
      | .ok _, fs' => (∃ count, (a.decoding r fs).result = .ok count) ∧
        Installed fs fs' dir root (n :: ns) ⟨unpackedMode r.kind, (a.decoding r fs).output⟩
      | .error _, _ => ¬∃ count, (a.decoding r fs).result = .ok count := by
  have htrim := hx.trim (by simp)
  have hlocate := h.locate_missing hx (h.clear_of_directory hdir) hfree .kept
  rw [if_pos hdir, ← locateName_of_trim htrim] at hlocate
  have habsent : fs.Absent x := by
    intro loc hloc
    rw [hlocate] at hloc
    cases hloc
  obtain ⟨i, fs₁, hcreate⟩ := h.createFile_below hx hdir hfree Mode.file
  have hsucceeds (hdecodes : ∃ count, (a.decoding r fs).result = .ok count) :
      ((a.writeFile r x).apply fs).1 = .ok () :=
    hdecodes.elim fun _ => writeFile_succeeds htrim h.wellFormed habsent hcreate hopen
  have hnames := writeFile_names htrim h.wellFormed habsent a r
  unfold Call.Ensures at hnames ⊢
  rcases happly : (a.writeFile r x).apply fs with ⟨e | ⟨⟩, fs'⟩
  · intro hdecodes
    rw [happly] at hsucceeds
    cases hsucceeds hdecodes
  rw [happly] at hnames
  obtain ⟨loc, j, hnew, hpayload⟩ := hnames
  have hretains := hnew.retains
  obtain ⟨count, hresult, hinode⟩ := hpayload hopen
  obtain ⟨d, name, rfl, hvacant⟩ := hnew.vacant
  cases hvacant.symm.trans hlocate
  refine ⟨⟨count, hresult⟩, h.change hnew.wellFormed hretains.workingDir ?_ ?_, .of_all hretains,
    ⟨j, hnew.node, hinode⟩, fun loc hne => .inl (hnew.only loc hne)⟩
  · intro loc node _ hnode
    exact hretains.nodesIn loc node hnode
  · intro loc node hnode
    by_cases hloc : loc = n :: (ns ++ root)
    · rw [hloc, hnew.node] at hnode
      exact .inr (.inl ⟨j, (Option.some.inj hnode).symm⟩)
    · rw [hnew.only loc hloc] at hnode
      exact .inl hnode

end Steps

variable [Zlib.Inflater]

/-- **Once the directory is there**, an entry is installed in three steps. -/
theorem install_plain {policy : UnpackPolicy} (h : fs.Plain dir root)
    (hopen : fs.HasOpen a.file) (hlenient : policy.strict = false)
    (hx : Continues dir x (n :: ns)) :
    Call.Ensures (do
      prepareParent root.path x r.name
      clearTarget x policy
      a.writeFile r x
      return x) fs fun result fs' => a.Installs r fs dir root n ns result fs' := by
  refine (prepareParent_plain h hx r.name).bind ?_ fun e fs₁ hblocked =>
    installs_error fun hcan => hblocked hcan.clear
  rintro - fs₁ ⟨hgrown, hclear⟩
  have hsame : fs₁.isDirectoryAt (n :: ns ++ root) = fs.isDirectoryAt (n :: ns ++ root) := by
    rw [isDirectoryAt, isDirectoryAt, directoryMode?, directoryMode?, hgrown.deeper]
  refine (clearTarget_plain hgrown.plain hx hlenient hgrown.made).bind ?_ fun e fs₂ hdir =>
    installs_error fun hcan => ?_
  · rintro - fs₂ ⟨hfreed, hvacant⟩
    have hretains : RetainsBut (n :: ns ++ root) fs fs₂ :=
      Retains.trans (.of_all hgrown.retains) hfreed.retains
    have hdecoding := decoding_retained hopen hretains r
    have hmade : fs₂.isDirectoryAt (ns ++ root) = true := by
      rw [isDirectoryAt, directoryMode?, hfreed.other (ns ++ root) (by simp)]
      exact hgrown.made
    refine (writeFile_plain hfreed.plain hx (hopen.retained hretains) hmade hfreed.free).bind ?_
      fun e fs₃ hfails => installs_error fun hcan => ?_
    · rintro - fs₃ ⟨hdecodes, hinstalled⟩
      rw [hdecoding] at hdecodes hinstalled
      refine ensures_pure ⟨⟨fun _ => ⟨hdecodes, hclear, hsame ▸ hvacant⟩, fun _ => ⟨x, rfl⟩⟩, ?_⟩
      rintro y -
      exact hinstalled.of_ready hgrown hfreed
    · have hfails : ¬∃ count, (a.decoding r fs₂).result = .ok count := hfails
      rw [hdecoding] at hfails
      exact hfails hcan.decodes
  · have hdir : fs₁.isDirectoryAt (n :: ns ++ root) = true := hdir
    rw [hsame, hcan.vacant] at hdir
    cases hdir

/-- **When a regular file is unpacked to a plain directory**, and what this comes to. -/
theorem unpack_plain {policy : UnpackPolicy} (h : fs.Plain dir root)
    (hopen : fs.HasOpen a.file) (hkind : r.kind.isFileLike = true) (hlink : r.kind ≠ .symlink)
    (hlenient : policy.strict = false) (hjoin : dir.containedJoin r.name = some x)
    (hx : Continues dir x (n :: ns)) :
    (a.unpack r dir policy).Ensures fs fun result fs' =>
      a.Installs r fs dir root n ns result fs' := by
  obtain ⟨mode, hmode⟩ := isDirectoryAt_iff.mp h.usable.isDirectoryAt
  have hmade : (makeDirAll dir).plainly.apply fs = (.ok (), fs) := by
    rw [FileSystem.Call.plainly, apply_withError, makeDirAll, Path.ancestors, Path.ancestorsUpTo,
      h.ensureFirst_present h.continues_self h.usable.isDirectoryAt]
    rfl
  have hcanon : (Call.askResult (·.canonicalize dir)).plainly.apply fs = (.ok root.path, fs) := by
    rw [FileSystem.Call.plainly, apply_withError, apply_askResult,
      h.canonicalize h.continues_self hmode]
    rfl
  have hplace : (a.place r dir policy).Ensures fs fun result fs' =>
      a.Installs r fs dir root n ns result fs' := by
    have hinstall := install_plain (r := r) h hopen hlenient hx
    unfold Call.Ensures at hinstall ⊢
    rw [place, hkind, hjoin]
    simp only [Bool.not_true, Bool.false_eq_true, if_false, hlink]
    rw [apply_bind, hmade]
    simp only
    rw [apply_bind, hcanon]
    exact hinstall
  refine hplace.withError fun result fs' hinstalls => ?_
  cases result with
  | error e =>
    refine installs_error fun hcan => ?_
    obtain ⟨y, hy⟩ := hinstalls.1.mpr hcan
    cases hy
  | ok y =>
    exact ⟨⟨fun _ => hinstalls.1.mp ⟨y, rfl⟩, fun _ => ⟨y, rfl⟩⟩, fun z _ => hinstalls.2 y rfl⟩

end Archive
end Stowage
