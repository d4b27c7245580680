import Stowage.Proofs.Launch.Extraction
import Stowage.Proofs.Launch.Processes

/-!
# What a launch leaves behind

A launch that does not extract does nothing to files by itself: between the calls to its
surroundings nothing changes but what is open (`Idle`).  One that extracts makes a
directory, works inside it, and removes it, however it ends.

`launch_leaves_no_trace` is about the second kind.  As long as its surroundings leave files
alone, and its child keeps to the directory, there is one such directory at most, it is
there with all that has been extracted when the child starts, and in the end everything is
as it was, but for directories that were missing above it.
-/

namespace Stowage

open FileSystem Result

variable {τ : Type}

namespace FileSystem

theorem Quiet.entry? {fs fs' : FileSystem} (h : Quiet fs fs') (loc : Location) :
    fs'.entry? loc = fs.entry? loc :=
  ChangedOnly.entry? (h.changedOnly (P := fun _ => False)) not_false

/-- What has been made for a path is there as long as a walk sees it. -/
theorem MadeFor.of_quiet {fs fs₁ base fs' : FileSystem} {p : Path} {loc : Location}
    (h : fs₁.MadeFor p base loc) (hq : Quiet fs fs₁) (hshows : Shows base fs')
    (hdir : fs'.workingDir = base.workingDir) : fs.MadeFor p fs' loc := by
  obtain ⟨files, rfl⟩ := hq
  obtain ⟨hfree, hdirectory, q, hq, hfound⟩ := h
  obtain ⟨mode, hmode⟩ := isDirectoryAt_iff.mp hdirectory
  rw [node?_openFiles] at hfree
  exact ⟨hfree, isDirectoryAt_iff.mpr ⟨mode, hshows.directory _ _ hmode⟩, q, hq,
    find_mono hfound hshows hdir⟩

end FileSystem

/-- Between the steps, nothing changes but what is open. -/
abbrev Idle (fs : FileSystem) (steps : List (LaunchStep τ)) (fs' : FileSystem) : Prop :=
  Between Quiet fs steps fs'

theorem Idle.append {fs fs' fs'' : FileSystem} {steps more : List (LaunchStep τ)}
    (h : Idle fs steps fs') (h' : Idle fs' more fs'') : Idle fs (steps ++ more) fs'' :=
  Between.append Quiet.trans h h'

/-- One step, with nothing before it or after it. -/
theorem idle_step (step : LaunchStep τ) :
    Idle step.before.files [step] step.after.files := ⟨.refl _, .refl _⟩

/-- **What each step keeps, and all that happens in between,** holds throughout. -/
theorem Between.invariant {R : FileSystem → FileSystem → Prop} {I : FileSystem → Prop}
    {fs fs' : FileSystem} {steps : List (LaunchStep τ)} (h : Between R fs steps fs')
    (hbetween : ∀ fs fs', R fs fs' → I fs → I fs')
    (hsteps : ∀ step ∈ steps, I step.before.files → I step.after.files) (hfs : I fs) :
    (∀ step ∈ steps, I step.before.files) ∧ I fs' := by
  induction steps generalizing fs with
  | nil => exact ⟨by simp, hbetween _ _ h hfs⟩
  | cons step steps ih =>
    have hbefore := hbetween _ _ h.1 hfs
    obtain ⟨hrest, hlast⟩ := ih h.2 (fun other hother => hsteps other (.tail _ hother))
      (hsteps step (.head _) hbefore)
    exact ⟨List.forall_mem_cons.mpr ⟨hbefore, hrest⟩, hlast⟩

/-- The calls by which a launch has a copy of the program run. -/
def LaunchCall.isRespawn : LaunchCall → Bool
  | .respawn .. => true
  | _ => false

/-- A call that does not hand over is no such call. -/
theorem LaunchCall.isRespawn_of_stays {c : LaunchCall} (h : c.isHandover = false) :
    c.isRespawn = false := by
  cases c <;> first | rfl | cases h

/-! ## Launches that do not extract -/

/-- **Opening the container of a program** changes nothing but what is open. -/
theorem Locate.isQuiet_openArchive (executable : Path) : (openArchive executable).IsQuiet := by
  intro fs
  have hload (path : Path) : (Archive.load path).Keeps (Quiet fs) :=
    Archive.isQuiet_load path fs
  have hallows : (allowsSideLoad executable).Keeps (Quiet fs) :=
    .bind ((isQuiet_openFile executable fs).withError _) fun file =>
      .bind ((onlyReads_lengthOf file).isQuiet fs) fun length =>
        .bind ((Archive.isQuiet_findLast _ file length fs).withError _) fun _ => .pure _
  have hbeside (path : Path) : ((Archive.load path).withError LaunchError.archive).Keeps
      (Quiet fs) := (hload path).withError _
  have hrefuse {α : Type} (e : LaunchError) : (throw e : Call LaunchError α).Keeps (Quiet fs) :=
    .throw e
  rw [openArchive]
  refine .bind (hload executable).outcome fun r => ?_
  split
  · exact .pure _
  · split
    · refine .bind (.ask _) fun isFile => ?_
      have hrest : Call.Keeps (do
          if !(← allowsSideLoad executable) then throw (.sideLoadRefused (sideLoadPath executable))
          (Archive.load (sideLoadPath executable)).withError LaunchError.archive) (Quiet fs) := by
        refine .bind hallows fun allowed => ?_
        split
        · exact .bind (hrefuse _) fun _ => hbeside _
        · exact hbeside _
      split
      · exact .bind (hrefuse _) fun _ => hrest
      · exact hrest
    · exact .throw _

/-- Reading the data of an entry changes nothing but what is open. -/
theorem Feed.isQuiet_data [Zlib.Inflater] (f : Feed) (a : Archive) (r : Record) :
    (f.data a r).IsQuiet := by
  intro fs
  rw [data]
  split
  · exact (Archive.isQuiet_payload a r fs).withError _
  · exact .pure _

/-- A pass over the entries does nothing to files by itself. -/
theorem Fed.idle [Zlib.Inflater] {a : Archive} {f : Feed} {w w' : World τ}
    {entries : List (Except Malformation Record)} {steps : List (LaunchStep τ)}
    {result : Except RuntimeError Unit} (h : Fed a f w entries steps result w') :
    Idle w.files steps w'.files := by
  have hread {r : Record} {w : World τ} {answer : Except RuntimeError Bytes} {files : FileSystem}
      (hread : (f.data a r).apply w.files = (answer, files)) : Quiet w.files files := by
    have hquiet := (f.isQuiet_data a r).apply w.files
    rwa [hread] at hquiet
  induction h with
  | done | malformed => exact .refl _
  | other _ _ ih => exact ih
  | unread _ _ hdata => exact hread hdata
  | refused _ _ hdata => exact ⟨hread hdata, .refl _⟩
  | fed _ hdata _ _ ih => exact ⟨hread hdata, ih⟩

namespace Launch

variable {env : Surroundings τ} {setup : LaunchSetup} {a : Archive} {s s' : LaunchState}
  {w w' : World τ} {r : Except LaunchError LaunchOutcome} {steps : List (LaunchStep τ)}

theorem Opening.idle {result : Except LaunchError Archive}
    (h : Opening env s w result s' steps w') : Idle w.files steps w'.files := by
  have hquiet {executable : Path} {w₁ : World τ} {answer : Except LaunchError Archive}
      {files : FileSystem}
      (hopen : (Locate.openArchive executable).apply w₁.files = (answer, files)) :
      Quiet w₁.files files := by
    have hquiet := (Locate.isQuiet_openArchive executable).apply w₁.files
    rwa [hopen] at hquiet
  cases h with
  | lost => exact ⟨.refl _, .refl _⟩
  | unopened _ hopen => exact ⟨.refl _, hquiet hopen⟩
  | opened _ hopen => exact ⟨.refl _, hquiet hopen⟩

variable [Zlib.Inflater]

/-- Making, starting and feeding a runtime does nothing to files by itself. -/
theorem Running.idle (h : Running env a s w r s' steps w') : Idle w.files steps w'.files := by
  have hbegun (w₁ w₂ : World τ) (answer : Except RuntimeError StartOutcome) :
      Idle w.files (begun a s w w₁ w₂ answer) w₂.files :=
    ⟨.refl _, .refl _, .refl _⟩
  cases h with
  | uncreated => exact idle_step ⟨_, _, _⟩
  | unstarted | exited => exact hbegun _ _ _
  | modulesStopped _ hmodules => exact (hbegun _ _ _).append hmodules.idle
  | bundlesStopped _ hmodules hbundles =>
    exact (hbegun _ _ _).append (hmodules.idle.append hbundles.idle)
  | scriptsStopped _ _ hmodules hbundles hscripts | completed _ hmodules hbundles hscripts =>
    exact (hbegun _ _ _).append ((hmodules.idle.append hbundles.idle).append hscripts.idle)
  | scriptFailed _ hmodules hbundles hscripts =>
    exact (hbegun _ _ _).append
      (((hmodules.idle.append hbundles.idle).append hscripts.idle).append (idle_step ⟨_, _, _⟩))

/-- Neither does running in place. -/
theorem InPlace.idle (h : InPlace env setup a s w r s' steps w') :
    Idle w.files steps w'.files := by
  cases h with
  | hidden => exact idle_step ⟨_, _, _⟩
  | restarted => exact ⟨.refl _, .refl _, .refl _⟩
  | ran _ _ _ hruns => exact ⟨.refl _, hruns.idle⟩
  | ranAgain _ _ _ hruns => exact ⟨.refl _, .refl _, hruns.idle⟩

omit [Zlib.Inflater] in
theorem Opening.not_isRespawn {result : Except LaunchError Archive}
    (h : Opening env s w result s' steps w') : ∀ step ∈ steps, step.call.isRespawn = false := by
  obtain ⟨-, step, answer, rfl, hcall⟩ := h.step
  simp [hcall, LaunchCall.isRespawn]

theorem InPlace.not_isRespawn (h : InPlace env setup a s w r s' steps w') :
    ∀ step ∈ steps, step.call.isRespawn = false := by
  have hrun {s₁ : LaunchState} {w₁ : World τ} {run : List (LaunchStep τ)}
      (hruns : Running env a s w₁ r s₁ run w') : ∀ step ∈ run, step.call.isRespawn = false :=
    fun step hstep => LaunchCall.isRespawn_of_stays (hruns.stays step hstep).1
  cases h with
  | hidden | restarted => simp [LaunchCall.isRespawn]
  | ran _ _ _ hruns => exact List.forall_mem_cons.mpr ⟨rfl, hrun hruns⟩
  | ranAgain _ _ _ hruns =>
    exact List.forall_mem_cons.mpr ⟨rfl, List.forall_mem_cons.mpr ⟨rfl, hrun hruns⟩⟩

/-- **A launch does nothing to files by itself**, unless it extracts. -/
theorem Course.idle_or_extracting (h : Course env setup s w r s' steps w') :
    (Idle w.files steps w'.files ∧ s'.session.ownedDir = s.session.ownedDir ∧
        ∀ step ∈ steps, step.call.isRespawn = false) ∨
      (setup.handshake.extractDir = none ∧ ∃ a s₁ opening rest w₁,
        Opening env s w (.ok a) s₁ opening w₁ ∧ a.needsExtraction = true ∧
          Extracting env setup a s₁ w₁ r s' rest w' ∧ steps = opening ++ rest) := by
  have hopening {result : Except LaunchError Archive} {s₁ : LaunchState}
      {opening : List (LaunchStep τ)} {w₁ : World τ} (hopen :
        Opening env s w result s₁ opening w₁) :
      s₁.session.ownedDir = s.session.ownedDir := by
    cases hopen <;> rfl
  cases h with
  | unopened hopen => exact .inl ⟨hopen.idle, hopening hopen, hopen.not_isRespawn⟩
  | extracts hopen hfirst hneeds hextracts =>
    exact .inr ⟨hfirst, _, _, _, _, _, hopen, hneeds, hextracts, rfl⟩
  | runsExtracted hopen _ _ hruns =>
    have hnone := hopening hopen
    refine .inl ⟨hopen.idle.append ⟨.refl _, hruns.idle⟩, by rw [hruns.session, ← hnone], ?_⟩
    exact List.forall_mem_append.mpr ⟨hopen.not_isRespawn,
      List.forall_mem_cons.mpr ⟨rfl, hruns.not_isRespawn⟩⟩
  | runs hopen _ _ hruns =>
    have hnone := hopening hopen
    refine .inl ⟨hopen.idle.append hruns.idle, by rw [hruns.session, ← hnone], ?_⟩
    exact List.forall_mem_append.mpr ⟨hopen.not_isRespawn, hruns.not_isRespawn⟩

end Launch

/-! ## How a launch cleans up -/

namespace LaunchSession

open FileSystem.Call

variable {session : LaunchSession} {dir : Path} {fs fs' base : FileSystem} {root : Location}

theorem cleanUp_of_none (h : session.ownedDir = none) : (session.cleanUp.apply fs).2 = fs := by
  rw [cleanUp, h]
  rfl

/-- An attempt that leaves no directory behind is the only one. -/
theorem cleanUp_of_gone (h : session.ownedDir = some dir) {r : Except FileError Unit}
    (hremove : (removeTree dir).apply fs = (r, fs')) (hgone : isGone r = true) :
    (session.cleanUp.apply fs).2 = fs' := by
  have htry : (removeDir dir removeAttempts).apply fs = (.ok true, fs') := by
    rw [removeDir, removeAttempts, tryRemove, apply_bind, apply_outcome, hremove]
    simp only [hgone, if_true]
    rfl
  rw [cleanUp, h]
  simp only [apply_bind, htry]
  rfl

/-- **The removal of an extraction directory** leaves everything as it was before there was
one. -/
theorem cleanUp_of_newPlace (hbase : base.WellFormed) (hplace : base.NewPlace dir root)
    (hwf : fs.WellFormed) (hout : SameOutside root base fs) (howned : session.ownedDir = some dir)
    (hremove : fs.isPresent dir = true → ((removeTree dir).apply fs).1 = .ok ()) :
    (∀ loc, FileSystem.entry? (session.cleanUp.apply fs).2 loc = base.entry? loc) ∧
      (session.cleanUp.apply fs).2.workingDir = base.workingDir := by
  -- where nothing is left below the place, and the rest is as it was
  have hend {fs' : FileSystem} (hsame : SameOutside root fs fs')
      (hnone : ∀ loc, Location.within root loc = true → fs'.node? loc = none) :
      (∀ loc, fs'.entry? loc = base.entry? loc) ∧ fs'.workingDir = base.workingDir := by
    refine ⟨fun loc => ?_, hsame.workingDir.trans hout.workingDir⟩
    cases hw : Location.within root loc with
    | false => rw [hsame.entries loc hw, hout.entries loc hw]
    | true =>
      rw [FileSystem.entry?, FileSystem.entry?, hnone loc hw, hbase.node?_of_within hplace.free hw]
      rfl
  have hshows := hout.shows hbase hplace.free
  obtain ⟨d, name, rfl, hloc⟩ := hplace.vacant
  have hname := locateName_of_free hloc hshows hout.workingDir
  cases hnode : fs.node? (name :: d) with
  | none =>
    rw [hnode] at hname
    rw [cleanUp_of_gone howned (removeTree_of_free hplace.trim hname) rfl]
    exact hend (.refl _ fs) fun loc hw => hwf.node?_of_within hnode hw
  | some node =>
    rw [hnode] at hname
    have hpresent : fs.isPresent dir = true := by
      rw [isPresent, find_of_locateName hplace.trim hname]
      rfl
    have hok := hremove hpresent
    have hremoved := removeTree_ensures hplace.trim hname hok
    rw [cleanUp_of_gone howned (Prod.ext hok rfl) rfl]
    exact hend hremoved.1 hremoved.2

end LaunchSession

namespace Launch

variable {env : Surroundings τ} {setup : LaunchSetup} {argv : List String} {a : Archive}
  {s s' : LaunchState} {w w' : World τ} {r : Except LaunchError LaunchOutcome}
  {steps : List (LaunchStep τ)}

/-! ## A launch that extracts -/

/-- A step that leaves files alone.  A child may change what is in its directory, and the
directory itself. -/
def IsHarmless (step : LaunchStep τ) : Prop :=
  match step.call with
  | .respawn _ handshake _ _ => step.after.files.WellFormed ∧
      ∀ dir root, handshake.extractDir = some dir → step.before.files.find true dir = .ok root →
        SameOutside root step.before.files step.after.files
  | _ => Quiet step.before.files step.after.files

/-- A step that changes nothing but what is open is harmless, be it that of a child. -/
theorem isHarmless_of_quiet {step : LaunchStep τ} (hwf : step.before.files.WellFormed)
    (h : Quiet step.before.files step.after.files) : IsHarmless step := by
  unfold IsHarmless
  split
  · exact ⟨h.wellFormed hwf, fun dir root _ _ =>
      .of_changedOnly (h.changedOnly (P := fun _ => False)) (by simp)⟩
  · exact h

theorem quiet_of_harmless {step : LaunchStep τ} (h : IsHarmless step)
    (hcall : step.call.isRespawn = false) : Quiet step.before.files step.after.files := by
  unfold IsHarmless at h
  split at h
  · rename_i hc
    rw [hc] at hcall
    cases hcall
  · exact h

/-- The removal of an extraction directory succeeds, if there is something to remove. -/
def Removes (s : LaunchState) (w : World τ) : Prop :=
  ∀ dir, s.session.ownedDir = some dir → w.files.isPresent dir = true →
    ((removeTree dir).apply w.files).1 = .ok ()

section

variable [Zlib.Inflater]

/-- **What a child finds**: its directory, with all that has been extracted. -/
structure Finds (env : Surroundings τ) (setup : LaunchSetup) (a : Archive) (s : LaunchState)
    (w : World τ) (dir : Path) (root : Location) (fs : FileSystem) : Prop where
  found : fs.find true dir = .ok root
  directory : fs.isDirectoryAt root = true
  filled : ∃ s' heard w', Extracted env setup a s w (.ok dir) s' heard w' ∧ Quiet w'.files fs

/-- **An extraction** works inside a directory that it has made, or has not come to make
one. -/
theorem Extracted.hosts {result : Except LaunchError Path} (hwf : w.files.WellFormed)
    (h : Extracted env setup a s w result s' steps w')
    (hquiet : ∀ step ∈ steps, Quiet step.before.files step.after.files) :
    ∃ base, base.WellFormed ∧ NodesIn w.files base ∧
      ChangedOnly (w.files.MadeFor (extractionParent s w) base) w.files base ∧
      ((s' = s ∧ steps = [] ∧ (∃ e, result = .error e) ∧
          ChangedOnly (fun _ => False) base w'.files) ∨
        ∃ dir root, s'.session = s.session.adopt dir ∧ base.NewPlace dir root ∧
          (∀ other, result = .ok other → other = dir) ∧
          (∀ step ∈ steps, base.Hosts root step.before.files) ∧ base.Hosts root w'.files) := by
  have hmade := makeDir_ensures hwf (extractionParent s w)
  have hfill {dir : Path} {base files : FileSystem} {root : Location} {heard : List (LaunchStep τ)}
      (hbase : base.WellFormed) (hplace : base.NewPlace dir root) (hhosts : base.Hosts root files)
      (hfilling : Filling a dir setup.policy (resolverOf s setup) files heard w'.files)
      (hquiet : ∀ step ∈ heard, Quiet step.before.files step.after.files) :
      (∀ step ∈ heard, base.Hosts root step.before.files) ∧ base.Hosts root w'.files :=
    hfilling.between.invariant (I := base.Hosts root)
      (fun _ _ hunpacked hhosts => hhosts.unpacked hbase hplace hunpacked)
      (fun step hstep hhosts => hhosts.quiet (hquiet step hstep)) hhosts
  cases h with
  | unmade hmake =>
    rw [Call.Ensures, hmake] at hmade
    obtain ⟨-, base, hbase, hin, hchanged, hsame⟩ := hmade
    exact ⟨base, hbase, hin, hchanged, .inl ⟨rfl, rfl, ⟨_, rfl⟩, hsame⟩⟩
  | unfilled hmake _ hfilling =>
    rw [Call.Ensures, hmake] at hmade
    obtain ⟨-, base, hbase, hin, hchanged, root, hplace, hhosts⟩ := hmade
    obtain ⟨hbefore, hlast⟩ := hfill hbase hplace hhosts hfilling hquiet
    exact ⟨base, hbase, hin, hchanged,
      .inr ⟨_, root, rfl, hplace, fun _ h => (by cases h), hbefore, hlast⟩⟩
  | filled hmake _ hfilling =>
    rw [Call.Ensures, hmake] at hmade
    obtain ⟨-, base, hbase, hin, hchanged, root, hplace, hhosts⟩ := hmade
    obtain ⟨hbefore, hlast⟩ := hfill hbase hplace hhosts hfilling hquiet
    exact ⟨base, hbase, hin, hchanged,
      .inr ⟨_, root, rfl, hplace, fun _ h => (by cases h; rfl), hbefore, hlast⟩⟩

/-- **An extraction that succeeds** has made a directory, and has worked inside it. -/
theorem Extracted.hosts_ok {dir : Path} (hwf : w.files.WellFormed)
    (h : Extracted env setup a s w (.ok dir) s' steps w')
    (hquiet : ∀ step ∈ steps, Quiet step.before.files step.after.files) :
    ∃ base root, base.WellFormed ∧ NodesIn w.files base ∧
      ChangedOnly (w.files.MadeFor (extractionParent s w) base) w.files base ∧
      base.NewPlace dir root ∧ (∀ step ∈ steps, base.Hosts root step.before.files) ∧
      base.Hosts root w'.files := by
  obtain ⟨base, hbase, hin, hchanged, ⟨-, -, ⟨e, he⟩, -⟩ |
    ⟨made, root, -, hplace, hsame, hbefore, hlast⟩⟩ := h.hosts hwf hquiet
  · cases he
  · obtain rfl := hsame dir rfl
    exact ⟨base, root, hbase, hin, hchanged, hplace, hbefore, hlast⟩

/-- **A step keeps to a directory**: outside everything is as it was before the directory was
made, and if a child is run, it finds the directory with what has been extracted. -/
structure KeepsTo (env : Surroundings τ) (setup : LaunchSetup) (a : Archive) (s : LaunchState)
    (w : World τ) (dir : Path) (root : Location) (base : FileSystem) (step : LaunchStep τ) :
    Prop where
  hosts : base.Hosts root step.before.files
  finds : ∀ session message ignoreSignals answer,
    step.call = .respawn session message ignoreSignals answer →
      message = .forChild dir ∧ Finds env setup a s w dir root step.before.files

/-- A step in which no child is run keeps to a directory if it finds it there. -/
theorem KeepsTo.of_hosts {dir : Path} {root : Location} {base : FileSystem} {step : LaunchStep τ}
    (h : base.Hosts root step.before.files) (hcall : step.call.isRespawn = false) :
    KeepsTo env setup a s w dir root base step := by
  refine ⟨h, fun session message ignoreSignals answer hrespawn => ?_⟩
  rw [hrespawn] at hcall
  cases hcall

omit [Zlib.Inflater] in
theorem Heard.not_isRespawn (h : Heard steps) : ∀ step ∈ steps, step.call.isRespawn = false := by
  intro step hstep
  obtain ⟨name, hcall⟩ := h step hstep
  rw [hcall]
  rfl

/-- **A launch that extracts** keeps to the directory that it makes, and owns it in the end. -/
theorem Extracting.hosts (hwf : w.files.WellFormed)
    (h : Extracting env setup a s w r s' steps w') (hharmless : ∀ step ∈ steps, IsHarmless step) :
    ∃ base, base.WellFormed ∧ NodesIn w.files base ∧
      ChangedOnly (w.files.MadeFor (extractionParent s w) base) w.files base ∧
      ((s' = s ∧ steps = [] ∧ ChangedOnly (fun _ => False) base w'.files) ∨
        ∃ dir root, s'.session.ownedDir = some dir ∧ base.NewPlace dir root ∧
          (∀ step ∈ steps, KeepsTo env setup a s w dir root base step) ∧
          w'.files.WellFormed ∧ SameOutside root base w'.files) := by
  have hquiet {heard : List (LaunchStep τ)} (hheard : Heard heard)
      (hharmless : ∀ step ∈ heard, IsHarmless step) :
      ∀ step ∈ heard, Quiet step.before.files step.after.files :=
    fun step hstep => quiet_of_harmless (hharmless step hstep) (hheard.not_isRespawn step hstep)
  have hkeeps {heard : List (LaunchStep τ)} {dir : Path} {base : FileSystem} {root : Location}
      (hheard : Heard heard) (hbefore : ∀ step ∈ heard, base.Hosts root step.before.files) :
      ∀ step ∈ heard, KeepsTo env setup a s w dir root base step :=
    fun step hstep => .of_hosts (hbefore step hstep) (hheard.not_isRespawn step hstep)
  cases h with
  | failed hextract =>
    obtain ⟨base, hbase, hin, hchanged, ⟨rfl, rfl, -, hsame⟩ |
      ⟨dir, root, hsession, hplace, -, hbefore, hlast⟩⟩ :=
      hextract.hosts hwf (hquiet hextract.heard hharmless)
    · exact ⟨base, hbase, hin, hchanged, .inl ⟨rfl, rfl, hsame⟩⟩
    · exact ⟨base, hbase, hin, hchanged, .inr ⟨dir, root, by rw [hsession]; rfl, hplace,
        hkeeps hextract.heard hbefore, hlast.wellFormed, hlast.outside⟩⟩
  | @hidden dir e heard w₁ _ hextract =>
    rw [List.forall_mem_append] at hharmless
    obtain ⟨base, root, hbase, hin, hchanged, hplace, hbefore, hlast⟩ :=
      hextract.hosts_ok hwf (hquiet hextract.heard hharmless.1)
    have hexposed : base.Hosts root w'.files := hlast.quiet (hharmless.2 _ (.head _))
    exact ⟨base, hbase, hin, hchanged, .inr ⟨dir, root, rfl, hplace,
      List.forall_mem_append.mpr ⟨hkeeps hextract.heard hbefore,
        List.forall_mem_singleton.mpr (.of_hosts hlast rfl)⟩,
      hexposed.wellFormed, hexposed.outside⟩⟩
  | @respawned dir changed answer heard w₁ w₂ _ hextract =>
    rw [List.forall_mem_append] at hharmless
    obtain ⟨base, root, hbase, hin, hchanged, hplace, hbefore, hlast⟩ :=
      hextract.hosts_ok hwf (hquiet hextract.heard hharmless.1)
    have hexposed : Quiet w₁.files w₂.files := hharmless.2 _ (.head _)
    have hhosts : base.Hosts root w₂.files := hlast.quiet hexposed
    have hfound := hhosts.find hbase hplace true
    have hfinds : Finds env setup a s w dir root w₂.files :=
      ⟨hfound, hhosts.directory, _, heard, w₁, hextract, hexposed⟩
    -- the child has its own permission to change what is inside
    obtain ⟨hwf', houtside⟩ := hharmless.2 _ (.tail _ (.head _))
    refine ⟨base, hbase, hin, hchanged, .inr ⟨dir, root, rfl, hplace,
      List.forall_mem_append.mpr ⟨hkeeps hextract.heard hbefore, List.forall_mem_cons.mpr
        ⟨.of_hosts hlast rfl, List.forall_mem_singleton.mpr ⟨hhosts, ?_⟩⟩⟩,
      hwf', hhosts.outside.trans (houtside dir root rfl hfound)⟩⟩
    intro session message ignoreSignals other hcall
    cases hcall
    exact ⟨rfl, hfinds⟩

/-- **What a launch that extracts leaves**, once it has cleaned up, is what there was before
it made its directory. -/
theorem Extracting.leaves (hwf : w.files.WellFormed)
    (h : Extracting env setup a s w r s' steps w') (hnone : s.session.ownedDir = none)
    (hharmless : ∀ step ∈ steps, IsHarmless step) :
    ∃ base root, NodesIn w.files base ∧
      ChangedOnly (w.files.MadeFor (extractionParent s w) base) w.files base ∧
      (∀ step ∈ steps, ∀ loc, (∀ r, root = some r → Location.within r loc = false) →
        step.before.files.entry? loc = base.entry? loc) ∧
      (∀ step ∈ steps, ∀ session message ignoreSignals answer,
        step.call = .respawn session message ignoreSignals answer →
          ∃ dir r, message = .forChild dir ∧ root = some r ∧
            Finds env setup a s w dir r step.before.files) ∧
      (Removes s' w' →
        (∀ loc, FileSystem.entry? (s'.session.cleanUp.apply w'.files).2 loc = base.entry? loc) ∧
          (s'.session.cleanUp.apply w'.files).2.workingDir = base.workingDir) := by
  obtain ⟨base, hbase, hin, hchanged, ⟨rfl, rfl, hsame⟩ |
    ⟨dir, root, howned, hplace, hkeeps, hwf', houtside⟩⟩ := h.hosts hwf hharmless
  · refine ⟨base, none, hin, hchanged, by simp, by simp, fun _ => ?_⟩
    rw [LaunchSession.cleanUp_of_none hnone]
    exact ⟨fun loc => hsame.entry? not_false, hsame.workingDir⟩
  · refine ⟨base, some root, hin, hchanged, fun step hstep loc hloc => ?_,
      fun step hstep session message ignoreSignals answer hcall => ?_, fun hremove => ?_⟩
    · exact (hkeeps step hstep).hosts.outside.entries loc (hloc root rfl)
    · obtain ⟨hmessage, hfinds⟩ := (hkeeps step hstep).finds _ _ _ _ hcall
      exact ⟨dir, root, hmessage, rfl, hfinds⟩
    · exact LaunchSession.cleanUp_of_newPlace hbase hplace hwf' houtside howned
        (hremove dir howned)

/-! ## Any launch -/

omit [Zlib.Inflater] in
/-- A launch that has no directory to remove finishes without doing anything to files. -/
theorem idle_finishing (hnone : s.session.ownedDir = none) :
    Idle w.files (finishing env s w) ((finish env s).apply w).2.files := by
  rw [finish_apply, LaunchSession.cleanUp_of_none hnone, finishing, finalized]
  split
  · exact ⟨.refl _, .refl _⟩
  · exact .refl _

/-- A location was missing, and has been made for the directory in which a launch extracts. -/
def MadeAbove (env : Surroundings τ) (argv : List String) (w : World τ) (fs' : FileSystem)
    (loc : Location) : Prop :=
  ∃ a s opening w₁, Opening env (initial argv) w (.ok a) s opening w₁ ∧
    w.files.MadeFor (extractionParent s w₁) fs' loc

/-- The state of a launch, and its world, when its outcome is settled. -/
def settled (env : Surroundings τ) (setup : LaunchSetup) (argv : List String) (w : World τ) :
    LaunchState × World τ :=
  ((Stateful.apply (body env setup) (initial argv) w).1.2,
    (Stateful.apply (body env setup) (initial argv) w).2)

/-- **A launch leaves no trace**, with the extraction directory at `root` if there is one. -/
structure LeavesNoTrace (env : Surroundings τ) (setup : LaunchSetup) (argv : List String)
    (w : World τ) (steps : List (LaunchStep τ)) (fs' : FileSystem) (root : Option Location) :
    Prop where
  /-- In the end everything is as it was, but for directories that were missing above it. -/
  left : ∀ loc, fs'.entry? loc = w.files.entry? loc ∨ MadeAbove env argv w fs' loc
  /-- At every step, what is not in this one directory is as it was or as it is left. -/
  one : ∀ step ∈ steps, ∀ loc, (∀ r, root = some r → Location.within r loc = false) →
    step.before.files.entry? loc = w.files.entry? loc ∨
      step.before.files.entry? loc = fs'.entry? loc
  /-- The child finds it with all that has been extracted. -/
  filled : ∀ step ∈ steps, ∀ session message ignoreSignals answer,
    step.call = .respawn session message ignoreSignals answer →
      ∃ a s opening w₁ dir r, Opening env (initial argv) w (.ok a) s opening w₁ ∧
        message = .forChild dir ∧ root = some r ∧ Finds env setup a s w₁ dir r step.before.files

omit [Zlib.Inflater] in
/-- Where nothing is done to files but by harmless steps without a child, they stay as they
are. -/
theorem Idle.quiet {fs fs' : FileSystem} (h : Idle fs steps fs')
    (hharmless : ∀ step ∈ steps, IsHarmless step)
    (hnone : ∀ step ∈ steps, step.call.isRespawn = false) :
    (∀ step ∈ steps, Quiet fs step.before.files) ∧ Quiet fs fs' :=
  h.invariant (I := Quiet fs) (fun _ _ h h' => h'.trans h)
    (fun step hstep h => h.trans (quiet_of_harmless (hharmless step hstep) (hnone step hstep)))
    (.refl fs)

theorem LeavesNoTrace.of_idle {fs' : FileSystem} (h : Idle w.files steps fs')
    (hharmless : ∀ step ∈ steps, IsHarmless step)
    (hnone : ∀ step ∈ steps, step.call.isRespawn = false) :
    LeavesNoTrace env setup argv w steps fs' none := by
  obtain ⟨hbefore, hlast⟩ := Idle.quiet h hharmless hnone
  refine ⟨fun loc => .inl (hlast.entry? loc),
    fun step hstep loc _ => .inl (Quiet.entry? (hbefore step hstep) loc),
    fun step hstep session message ignoreSignals answer hcall => ?_⟩
  have hstay := hnone step hstep
  rw [hcall] at hstay
  cases hstay

theorem LeavesNoTrace.of_extracting {opening : List (LaunchStep τ)} {w₀ : World τ}
    (hwf : w.files.WellFormed) (hopen : Opening env (initial argv) w (.ok a) s opening w₀)
    (h : Extracting env setup a s w₀ r s' steps w')
    (hharmless : ∀ step ∈ opening ++ steps, IsHarmless step) (hremoves : Removes s' w') :
    ∃ root, LeavesNoTrace env setup argv w (opening ++ steps)
      (s'.session.cleanUp.apply w'.files).2 root := by
  rw [List.forall_mem_append] at hharmless
  have howned : s.session.ownedDir = none := by cases hopen; rfl
  -- up to the extraction nothing has changed
  obtain ⟨hbefore, hopened⟩ := Idle.quiet hopen.idle hharmless.1 hopen.not_isRespawn
  obtain ⟨base, root, hin, hchanged, hsteps, hfilled, hclean⟩ :=
    h.leaves (hopened.wellFormed hwf) howned hharmless.2
  obtain ⟨hfinal, hdir⟩ := hclean hremoves
  have hshows : Shows base (s'.session.cleanUp.apply w'.files).2 :=
    shows_of_entries fun loc e he => (hfinal loc).trans he
  refine ⟨root, fun loc => ?_, List.forall_mem_append.mpr ⟨fun step hstep loc _ => ?_,
    fun step hstep loc hloc => ?_⟩, List.forall_mem_append.mpr ⟨?_, ?_⟩⟩
  · by_cases hloc : w₀.files.MadeFor (extractionParent s w₀) base loc
    · exact .inr ⟨a, s, opening, w₀, hopen, hloc.of_quiet hopened hshows hdir⟩
    · exact .inl ((hfinal loc).trans ((hchanged.entry? hloc).trans (hopened.entry? loc)))
  · exact .inl (Quiet.entry? (hbefore step hstep) loc)
  · exact .inr ((hsteps step hstep loc hloc).trans (hfinal loc).symm)
  · intro step hstep _ _ _ _ hcall
    have hstay := hopen.not_isRespawn step hstep
    rw [hcall] at hstay
    cases hstay
  · intro step hstep session message ignoreSignals answer hcall
    obtain ⟨dir, r, hmessage, hroot, hfinds⟩ :=
      hfilled step hstep session message ignoreSignals answer hcall
    exact ⟨a, s, opening, w₀, dir, r, hopen, hmessage, hroot, hfinds⟩

/-- **A launch leaves no trace.**  One that has been told of a directory, or whose container
needs none, makes none and does nothing to files by itself, whatever its surroundings do.
Any launch, however it ends, leaves the files as they were if its surroundings leave them
alone, its child keeps to the extraction directory, and this can be removed. -/
theorem launch_leaves_no_trace (env : Surroundings τ) (setup : LaunchSetup) (argv : List String)
    (w : World τ) (hwf : w.files.WellFormed) :
    ((setup.handshake.extractDir.isSome = true ∨ ∀ a s opening w₁,
        Opening env (initial argv) w (.ok a) s opening w₁ → a.needsExtraction = false) →
      Idle w.files (stepsOf env setup argv w) ((launch env setup argv).apply w).2.files ∧
        (settled env setup argv w).1.session.ownedDir = none) ∧
    ((∀ step ∈ stepsOf env setup argv w, IsHarmless step) →
      Removes (settled env setup argv w).1 (settled env setup argv w).2 →
        ∃ root, LeavesNoTrace env setup argv w (stepsOf env setup argv w)
          ((launch env setup argv).apply w).2.files root) := by
  obtain ⟨r, s, course, w₁, hbody, hcourse, hsteps, hlaunch⟩ := exists_course env setup argv w
  have hsettled : settled env setup argv w = (s, w₁) := by rw [settled, hbody]
  rw [hsteps, hlaunch, hsettled]
  constructor
  · intro hstays
    rcases hcourse.idle_or_extracting with ⟨hidle, howned, -⟩ |
      ⟨hfirst, a, s₁, opening, rest, w₀, hopen, hneeds, -⟩
    · exact ⟨hidle.append (idle_finishing howned), howned⟩
    · rcases hstays with htold | hnone
      · rw [hfirst] at htold
        cases htold
      · rw [hnone a s₁ opening w₀ hopen] at hneeds
        cases hneeds
  intro hharmless hremoves
  rcases hcourse.idle_or_extracting with ⟨hidle, howned, hstays⟩ |
    ⟨-, a, s₁, opening, rest, w₀, hopen, -, hextracting, rfl⟩
  · have hfinishing : ∀ step ∈ finishing env s w₁, step.call.isRespawn = false := by
      rw [finishing]
      split <;> simp [LaunchCall.isRespawn]
    exact ⟨none, .of_idle (hidle.append (idle_finishing howned)) hharmless
      (List.forall_mem_append.mpr ⟨hstays, hfinishing⟩)⟩
  · have hunmade : s.hasRuntime = false := (hextracting.stopsShort hopen.step.1).unmade
    have hfinish : finishing env s w₁ = [] := by rw [finishing, hunmade]; rfl
    rw [hfinish, List.append_nil] at hharmless ⊢
    rw [finish_apply, finalized, hunmade, if_neg Bool.false_ne_true]
    exact LeavesNoTrace.of_extracting hwf hopen hextracting hharmless hremoves

end

/-- The general statement for a program that extracts, and whose copy finds no runtime. -/
theorem launch_leaves_no_trace_sampleProcess :
    (Native.freshWorld Native.sampleProcess.world).files.WellFormed ∧
      (∃ step ∈ Native.sampleProcess.steps, step.call.isRespawn = true) ∧
      ∃ root, LeavesNoTrace Native.sampleProcess.surroundings (Native.setupOf .empty) ["app"]
        (Native.freshWorld Native.sampleProcess.world) Native.sampleProcess.steps
        ((launch Native.sampleProcess.surroundings (Native.setupOf .empty) ["app"]).apply
          (Native.freshWorld Native.sampleProcess.world)).2.files root := by
  have hwf : (Native.freshWorld Native.sampleProcess.world).files.WellFormed := by decide +kernel
  have hrespawns : Native.sampleProcess.steps.any (·.call.isRespawn) = true := by decide +kernel
  have hharmless : Native.sampleProcess.steps.all (fun step =>
      decide step.before.files.WellFormed && decide (step.after.files =
        { step.before.files with openFiles := step.after.files.openFiles })) = true := by
    decide +kernel
  have hremoved : (settled Native.sampleProcess.surroundings (Native.setupOf .empty) ["app"]
      (Native.freshWorld Native.sampleProcess.world)).1.session.ownedDir.all (fun dir =>
        ((removeTree dir).apply (settled Native.sampleProcess.surroundings
          (Native.setupOf .empty) ["app"]
          (Native.freshWorld Native.sampleProcess.world)).2.files).1.toOption.isSome) = true := by
    decide +kernel
  refine ⟨hwf, List.any_eq_true.mp hrespawns, ?_⟩
  refine (launch_leaves_no_trace Native.sampleProcess.surroundings (Native.setupOf .empty) ["app"]
    (Native.freshWorld Native.sampleProcess.world) hwf).2 (fun step hstep => ?_)
    fun dir howned _ => ?_
  · have h := List.all_eq_true.mp hharmless step hstep
    simp only [Bool.and_eq_true, decide_eq_true_eq] at h
    exact isHarmless_of_quiet h.1 ⟨_, h.2⟩
  · rw [howned, Option.all_some, Option.isSome_iff_exists] at hremoved
    obtain ⟨⟨⟩, hok⟩ := hremoved
    generalize ((removeTree dir).apply _).1 = result at hok ⊢
    cases result with
    | ok _ => rfl
    | error e => cases hok

end Launch
end Stowage
