import Stowage.Proofs.Files.Reach

/-!
# What a call does

`Call.apply` runs a call.  The first part of this module computes it for the ways in
which calls are put together.  The second part says, once for each call that others are
made of, what it can do: it fails and leaves everything as it was, or it makes one
change whose place a walk has found (`makeDir_apply`, `createFile_apply`,
`makeLink_apply`, `removeFile_apply`, `setMode_apply`).  The calls that only read are
*quiet* (`Quiet`): they change nothing but what is open.

`Call.Ensures` is the form in which longer calls are reasoned about.
-/

namespace Stowage.FileSystem

open Result

variable {fs fs' : FileSystem} {p : Path} {ε ε' α β : Type}

namespace Call

/-! ## Running calls -/

theorem apply_bind (c : Call ε α) (f : α → Call ε β) (fs : FileSystem) :
    (c >>= f).apply fs = match c.apply fs with
      | (.ok a, fs') => (f a).apply fs'
      | (.error e, fs') => (.error e, fs') := by
  show (ExceptT.bindCont f (c fs).1).run (c fs).2 = _
  unfold apply
  show _ = match c fs with
    | (.ok a, fs') => f a fs'
    | (.error e, fs') => (.error e, fs')
  rcases c fs with ⟨r, fs'⟩
  cases r <;> rfl

@[simp] theorem apply_pure (a : α) (fs : FileSystem) :
    (pure a : Call ε α).apply fs = (.ok a, fs) := rfl

@[simp] theorem apply_throw (e : ε) (fs : FileSystem) :
    (throw e : Call ε α).apply fs = (.error e, fs) := rfl

@[simp] theorem apply_fail (cause : OsError) (fs : FileSystem) :
    (fail cause : Call FileError α).apply fs = (.error (.os cause), fs) := rfl

@[simp] theorem apply_ask (f : FileSystem → α) (fs : FileSystem) :
    (ask f : Call ε α).apply fs = (.ok (f fs), fs) := rfl

@[simp] theorem apply_askResult (f : FileSystem → Except ε α) (fs : FileSystem) :
    (askResult f).apply fs = (f fs, fs) := rfl

@[simp] theorem apply_change (f : FileSystem → FileSystem) (fs : FileSystem) :
    (change f : Call ε Unit).apply fs = (.ok (), f fs) := rfl

@[simp] theorem apply_withError (f : ε → ε') (c : Call ε α) (fs : FileSystem) :
    (c.withError f).apply fs = ((c.apply fs).1.mapError f, (c.apply fs).2) := rfl

@[simp] theorem apply_outcome (c : Call ε α) (fs : FileSystem) :
    (c.outcome : Call ε' _).apply fs = (.ok (c.apply fs).1, (c.apply fs).2) := rfl

theorem apply_map (f : α → β) (c : Call ε α) (fs : FileSystem) :
    (f <$> c).apply fs = ((c.apply fs).1.map f, (c.apply fs).2) := by
  unfold apply
  show (ExceptT.map f c) fs = ((c fs).1.map f, (c fs).2)
  unfold ExceptT.map
  show (match (c fs).1 with
    | .ok a => pure (.ok (f a))
    | .error e => pure (.error e) : StateM FileSystem (Except ε β)) (c fs).2 = _
  cases (c fs).1 <;> rfl

theorem apply_demand (loc : Location) (a : Access) (fs : FileSystem) :
    (demand loc a).apply fs =
      (if fs.allows loc a then .ok () else .error (.os .notPermitted), fs) := by
  rw [demand, apply_bind, apply_ask]
  cases fs.allows loc a <;> rfl

/-! ## What holds after a call -/

/-- Run on `fs`, a call has a result and leaves a file system that fulfil `Q`. -/
def Ensures (c : Call ε α) (fs : FileSystem) (Q : Except ε α → FileSystem → Prop) : Prop :=
  Q (c.apply fs).1 (c.apply fs).2

variable {Q : Except ε β → FileSystem → Prop} {R : Except ε α → FileSystem → Prop}

theorem Ensures.bind {c : Call ε α} {f : α → Call ε β} (hc : c.Ensures fs R)
    (hok : ∀ a fs', R (.ok a) fs' → (f a).Ensures fs' Q)
    (herror : ∀ e fs', R (.error e) fs' → Q (.error e) fs') : (c >>= f).Ensures fs Q := by
  unfold Ensures at hc ⊢
  rw [apply_bind]
  rcases hr : c.apply fs with ⟨r, fs'⟩
  rw [hr] at hc
  cases r with
  | ok a => exact hok a fs' hc
  | error e => exact herror e fs' hc

theorem Ensures.mono {c : Call ε α} {R' : Except ε α → FileSystem → Prop} (hc : c.Ensures fs R)
    (h : ∀ r fs', R r fs' → R' r fs') : c.Ensures fs R' :=
  h _ _ hc

theorem Ensures.and {c : Call ε α} {R' : Except ε α → FileSystem → Prop} (hc : c.Ensures fs R)
    (hc' : c.Ensures fs R') : c.Ensures fs fun r fs' => R r fs' ∧ R' r fs' := ⟨hc, hc'⟩

theorem Ensures.withError {c : Call ε α} {f : ε → ε'} {Q : Except ε' α → FileSystem → Prop}
    (hc : c.Ensures fs R) (h : ∀ r fs', R r fs' → Q (r.mapError f) fs') :
    (c.withError f).Ensures fs Q := h _ _ hc

/-- What holds whatever the result is does not depend on how errors are seen. -/
theorem Ensures.relabel {c : Call ε α} {P : FileSystem → Prop} (f : ε → ε')
    (hc : c.Ensures fs fun _ => P) : (c.withError f).Ensures fs fun _ => P := hc

theorem Ensures.ask {g : FileSystem → α} {f : α → Call ε β} (h : (f (g fs)).Ensures fs Q) :
    (Call.ask g >>= f).Ensures fs Q := h

theorem Ensures.change {g : FileSystem → FileSystem} {f : Unit → Call ε β}
    (h : (f ()).Ensures (g fs) Q) : (Call.change g >>= f).Ensures fs Q := h

theorem Ensures.askResult {g : FileSystem → Except ε α} {f : α → Call ε β}
    (hok : ∀ a, g fs = .ok a → (f a).Ensures fs Q) (herror : ∀ e, g fs = .error e →
      Q (.error e) fs) :
    (Call.askResult g >>= f).Ensures fs Q := by
  unfold Ensures
  rw [apply_bind, apply_askResult]
  cases hg : g fs with
  | ok a => exact hok a hg
  | error e => exact herror e hg

theorem Ensures.askResult_withError {g : FileSystem → Except ε' α} {f : ε' → ε}
    {k : α → Call ε β} (hok : ∀ a, g fs = .ok a → (k a).Ensures fs Q)
    (herror : ∀ e, g fs = .error e → Q (.error (f e)) fs) :
    ((Call.askResult g).withError f >>= k).Ensures fs Q := by
  unfold Ensures
  rw [apply_bind, apply_withError, apply_askResult]
  cases hg : g fs with
  | ok a => exact hok a hg
  | error e => exact herror e hg

theorem ensures_pure {a : α} (h : R (.ok a) fs) : (pure a : Call ε α).Ensures fs R := h

theorem ensures_throw {e : ε} (h : R (.error e) fs) : (throw e : Call ε α).Ensures fs R := h

/-! ## What a call keeps -/

/-- A call keeps a property of file systems, whether it succeeds or fails. -/
def Keeps (c : Call ε α) (I : FileSystem → Prop) : Prop := ∀ fs, I fs → I (c.apply fs).2

namespace Keeps
variable {I : FileSystem → Prop}

theorem of_apply {c : Call ε α} (h : ∀ fs, (c.apply fs).2 = fs) : c.Keeps I :=
  fun fs hfs => by rwa [h fs]

theorem pure (a : α) : (pure a : Call ε α).Keeps I := of_apply fun _ => rfl

theorem throw (e : ε) : (throw e : Call ε α).Keeps I := of_apply fun _ => rfl

theorem ask (f : FileSystem → α) : (ask f : Call ε α).Keeps I := of_apply fun _ => rfl

theorem askResult (f : FileSystem → Except ε α) : (askResult f).Keeps I := of_apply fun _ => rfl

theorem bind {c : Call ε α} {f : α → Call ε β} (hc : c.Keeps I) (hf : ∀ a, (f a).Keeps I) :
    (c >>= f).Keeps I := by
  intro fs hfs
  rw [apply_bind]
  have h := hc fs hfs
  rcases hr : c.apply fs with ⟨r, fs'⟩
  rw [hr] at h
  cases r with
  | ok a => exact hf a fs' h
  | error e => exact h

theorem withError {c : Call ε α} (f : ε → ε') (hc : c.Keeps I) : (c.withError f).Keeps I := hc

theorem map {c : Call ε α} (f : α → β) (hc : c.Keeps I) : (f <$> c).Keeps I := by
  intro fs hfs
  rw [apply_map]
  exact hc fs hfs

/-- What a call keeps holds after it, whatever else does. -/
theorem ensures {c : Call ε α} {Q : Except ε α → FileSystem → Prop} (hc : c.Keeps I)
    (hfs : I fs) (h : c.Ensures fs Q) : c.Ensures fs fun r fs' => Q r fs' ∧ I fs' :=
  ⟨h, hc fs hfs⟩

theorem outcome {c : Call ε α} (hc : c.Keeps I) : (c.outcome : Call ε' _).Keeps I := hc

end Keeps

end Call

open Call

/-! ## Quiet calls -/

/-- Nothing has changed but what is open. -/
def Quiet (fs fs' : FileSystem) : Prop := ∃ files, fs' = { fs with openFiles := files }

theorem Quiet.refl (fs : FileSystem) : Quiet fs fs := ⟨fs.openFiles, rfl⟩

theorem Quiet.symm (h : Quiet fs fs') : Quiet fs' fs := by
  obtain ⟨files, rfl⟩ := h
  exact ⟨fs.openFiles, rfl⟩

theorem Quiet.trans {fs'' : FileSystem} (h : Quiet fs fs') (h' : Quiet fs' fs'') :
    Quiet fs fs'' := by
  obtain ⟨files, rfl⟩ := h
  obtain ⟨files', rfl⟩ := h'
  exact ⟨files', rfl⟩

/-- A call that changes nothing but what is open. -/
def Call.IsQuiet (c : Call ε α) : Prop := ∀ fs, c.Keeps (Quiet fs)

theorem Call.IsQuiet.apply {c : Call ε α} (hc : c.IsQuiet) (fs : FileSystem) :
    Quiet fs (c.apply fs).2 := hc fs fs ⟨fs.openFiles, rfl⟩

theorem keeps_demand {I : FileSystem → Prop} (loc : Location) (a : Access) :
    (demand loc a).Keeps I :=
  .of_apply fun fs => by rw [apply_demand]

/-- A property of file systems that holds on when a file is opened, and when an open file
is read on. -/
structure IgnoresReading (I : FileSystem → Prop) : Prop where
  opened : ∀ fs f, I fs → I { fs with openFiles := fs.openFiles ++ [f] }
  moved : ∀ fs h f, (∀ o : OpenFile, (f o).target = o.target) → I fs →
    I { fs with openFiles := fs.openFiles.modify h f }

/-- A call that does nothing but open files and read them. -/
def Call.OnlyReads (c : Call ε α) : Prop := ∀ I, IgnoresReading I → c.Keeps I

theorem ignoresReading_quiet (fs : FileSystem) : IgnoresReading (Quiet fs) where
  opened := by
    rintro _ f ⟨files, rfl⟩
    exact ⟨_, rfl⟩
  moved := by
    rintro _ h f - ⟨files, rfl⟩
    exact ⟨_, rfl⟩

theorem IgnoresReading.and {I J : FileSystem → Prop} (hI : IgnoresReading I)
    (hJ : IgnoresReading J) : IgnoresReading fun fs => I fs ∧ J fs where
  opened fs f h := ⟨hI.opened fs f h.1, hJ.opened fs f h.2⟩
  moved fs file f hf h := ⟨hI.moved fs file f hf h.1, hJ.moved fs file f hf h.2⟩

theorem Call.OnlyReads.isQuiet {c : Call ε α} (hc : c.OnlyReads) : c.IsQuiet :=
  fun fs => hc _ (ignoresReading_quiet fs)

theorem onlyReads_openFile (p : Path) : (openFile p).OnlyReads := fun _ hI =>
  .bind (.askResult _) fun loc => .bind (keeps_demand loc .read) fun _ =>
    .bind (.ask _) fun _ => .bind (.ask _) fun h =>
      .bind (fun fs hfs => hI.opened fs _ hfs) fun _ => .pure h

theorem onlyReads_lengthOf (h : Handle) : (lengthOf h : Call ε Nat).OnlyReads := fun _ _ => .ask _

theorem onlyReads_seek (h : Handle) (position : Nat) :
    (seek h position : Call ε Unit).OnlyReads :=
  fun _ hI fs hfs => hI.moved fs h _ (fun _ => rfl) hfs

theorem onlyReads_advance (h : Handle) (count : Nat) :
    (advance h count : Call ε Unit).OnlyReads :=
  fun _ hI fs hfs => hI.moved fs h _ (fun _ => rfl) hfs

theorem onlyReads_readExact (h : Handle) (count : Nat) : (readExact h count).OnlyReads := by
  intro I hI
  have hread : Call.Keeps (do
      let bytes ← ask fun fs => (fs.unread h).take count
      advance h bytes.length
      if bytes.length < count then (throw .shortRead : Call FileError Unit)
      return bytes) I := by
    refine .bind (.ask _) fun bytes => .bind (onlyReads_advance _ _ I hI) fun _ => ?_
    split
    · exact .bind (.throw _) fun _ => .pure bytes
    · exact .pure bytes
  refine .bind (.ask _) fun isDirectory => ?_
  split
  · exact .bind (.throw _) fun _ => hread
  · exact hread

theorem isQuiet_openFile (p : Path) : (openFile p).IsQuiet := (onlyReads_openFile p).isQuiet

/-! ## Calls that do not look at open files -/

section OpenFiles
variable (fs : FileSystem) (files : List OpenFile)

@[simp] theorem node?_openFiles (loc : Location) :
    { fs with openFiles := files }.node? loc = fs.node? loc := by
  cases loc <;> rfl

@[simp] theorem directoryMode?_openFiles (loc : Location) :
    { fs with openFiles := files }.directoryMode? loc = fs.directoryMode? loc := by
  rw [directoryMode?, directoryMode?, node?_openFiles]

@[simp] theorem isDirectoryAt_openFiles (loc : Location) :
    { fs with openFiles := files }.isDirectoryAt loc = fs.isDirectoryAt loc := by
  rw [isDirectoryAt, isDirectoryAt, directoryMode?_openFiles]

@[simp] theorem allows_openFiles (loc : Location) (a : Access) :
    { fs with openFiles := files }.allows loc a = fs.allows loc a := by
  rw [allows, allows, node?_openFiles]
  rfl

theorem walkNames_openFiles (dots : DotNames) (last : LastName) (p : Path) (names : List String) :
    { fs with openFiles := files }.walkNames dots last p names =
      fs.walkNames dots last p names := by
  rw [walkNames, walkNames, walk_congr (node?_openFiles fs files)]
  rfl

@[simp] theorem locateName_openFiles (p : Path) :
    { fs with openFiles := files }.locateName p = fs.locateName p := by
  simp only [locateName, walkNames_openFiles]

@[simp] theorem find_openFiles (follow : Bool) (p : Path) :
    { fs with openFiles := files }.find follow p = fs.find follow p := by
  simp only [find, locate, walkNames_openFiles]

@[simp] theorem canonicalize_openFiles (p : Path) :
    { fs with openFiles := files }.canonicalize p = fs.canonicalize p := by
  simp only [canonicalize, walkNames_openFiles]

@[simp] theorem isDirectory_openFiles (p : Path) :
    { fs with openFiles := files }.isDirectory p = fs.isDirectory p := by
  simp only [isDirectory, find_openFiles, isDirectoryAt_openFiles]

@[simp] theorem isFile_openFiles (p : Path) :
    { fs with openFiles := files }.isFile p = fs.isFile p := by
  simp only [isFile, find_openFiles, node?_openFiles]

@[simp] theorem content_openFiles (p : Path) :
    { fs with openFiles := files }.content p = fs.content p := by
  simp only [FileSystem.content, find_openFiles, allows_openFiles, node?_openFiles]
  rfl

end OpenFiles

theorem Quiet.isFile_eq (h : Quiet fs fs') (p : Path) : fs'.isFile p = fs.isFile p := by
  obtain ⟨files, rfl⟩ := h
  exact isFile_openFiles fs files p

theorem Quiet.content_eq (h : Quiet fs fs') (p : Path) : fs'.content p = fs.content p := by
  obtain ⟨files, rfl⟩ := h
  exact content_openFiles fs files p

/-- A call for which it does not matter which files are open. -/
def Call.IsBlind (c : Call ε α) : Prop :=
  ∀ fs files, c.apply { fs with openFiles := files } =
    ((c.apply fs).1, { (c.apply fs).2 with openFiles := files })

namespace Call.IsBlind

theorem pure (a : α) : (pure a : Call ε α).IsBlind := fun _ _ => rfl

theorem throw (e : ε) : (throw e : Call ε α).IsBlind := fun _ _ => rfl

theorem ask {f : FileSystem → α} (h : ∀ fs files, f { fs with openFiles := files } = f fs) :
    (ask f : Call ε α).IsBlind := fun fs files => by
  rw [apply_ask, apply_ask, h]

theorem askResult {f : FileSystem → Except ε α}
    (h : ∀ fs files, f { fs with openFiles := files } = f fs) : (askResult f).IsBlind :=
  fun fs files => by rw [apply_askResult, apply_askResult, h]

theorem bind {c : Call ε α} {f : α → Call ε β} (hc : c.IsBlind) (hf : ∀ a, (f a).IsBlind) :
    (c >>= f).IsBlind := by
  intro fs files
  rw [apply_bind, apply_bind, hc fs files]
  rcases c.apply fs with ⟨r, fs'⟩
  cases r with
  | ok a => exact hf a fs' files
  | error e => rfl

theorem outcome {c : Call ε α} (hc : c.IsBlind) : (c.outcome : Call ε' _).IsBlind :=
  fun fs files => by rw [apply_outcome, apply_outcome, hc fs files]

end Call.IsBlind

theorem isBlind_demand (loc : Location) (a : Access) : (demand loc a).IsBlind := fun fs files => by
  rw [apply_demand, apply_demand, allows_openFiles]

theorem isBlind_makeDir (p : Path) : (makeDir p).IsBlind := by
  refine .bind (.askResult fun fs files => locateName_openFiles fs files p) fun s => ?_
  cases s with
  | present loc => exact .throw _
  | vacant dir name =>
    refine .bind (isBlind_demand dir .write) fun _ =>
      .bind (.ask fun fs files => by rw [directoryMode?_openFiles]) fun outer => fun fs files => rfl

theorem isBlind_ensureDir (p : Path) : (ensureDir p).IsBlind := by
  refine .bind (isBlind_makeDir p).outcome fun r => ?_
  split
  · exact .pure _
  · refine .bind (.ask fun fs files => isDirectory_openFiles fs files p) fun isDirectory => ?_
    split
    · exact .pure _
    · exact .throw _
  · exact .throw _

/-- **Making directories** does not depend on the open files. -/
theorem isBlind_makeDirAll (p : Path) : (makeDirAll p).IsBlind := by
  rw [makeDirAll]
  induction p.ancestors with
  | nil => exact .pure _
  | cons q paths ih =>
    rw [ensureFirst]
    split
    · exact .pure _
    · refine .bind (isBlind_ensureDir q).outcome fun r => ?_
      split
      · exact .pure _
      · exact .bind ih fun _ => isBlind_ensureDir q
      · exact .throw _

/-! ## Calls that change one thing -/

/-- **Making a directory** fails, or puts one at a free name. -/
theorem makeDir_apply (p : Path) (fs : FileSystem) :
    (∃ e, (makeDir p).apply fs = (.error e, fs)) ∨
      ∃ dir name mode, fs.locateName p = .ok (.vacant dir name) ∧
        (makeDir p).apply fs = (.ok (), fs.put (name :: dir) (.directory mode)) := by
  rw [makeDir, apply_bind, apply_askResult]
  cases hp : fs.locateName p with
  | error e => exact Or.inl ⟨e, rfl⟩
  | ok s =>
    cases s with
    | present loc => exact Or.inl ⟨_, rfl⟩
    | vacant dir name =>
      simp only [apply_bind, apply_demand, apply_ask, apply_change]
      cases fs.allows dir .write with
      | false => exact Or.inl ⟨_, rfl⟩
      | true => exact Or.inr ⟨dir, name, _, rfl, rfl⟩

/-- **Opening a file for writing** fails, or empties a file, or puts a new one at a free
name, in a directory that may be changed. -/
theorem createFile_apply (p : Path) (mode : Mode) (fs : FileSystem) :
    (∃ e, (createFile p mode).apply fs = (.error e, fs)) ∨
      (∃ loc n, fs.locate .filled p = .ok (.present loc) ∧ fs.node? loc = some (.file n) ∧
        (createFile p mode).apply fs =
          (.ok n, fs.updateInode n fun i => ⟨i.mode.afterChange, []⟩)) ∨
      ∃ dir name, fs.locate .filled p = .ok (.vacant dir name) ∧ fs.allows dir .write = true ∧
        (createFile p mode).apply fs = (.ok fs.inodes.length,
          (fs.addInode ⟨mode, []⟩).2.put (name :: dir) (.file fs.inodes.length)) := by
  rw [createFile, apply_bind, apply_askResult]
  cases hp : fs.locate .filled p with
  | error e => exact Or.inl ⟨e, rfl⟩
  | ok s =>
    cases s with
    | present loc =>
      simp only [apply_bind, apply_ask]
      cases hn : fs.node? loc with
      | none => exact Or.inl ⟨_, rfl⟩
      | some node =>
        cases node with
        | directory mode => exact Or.inl ⟨_, rfl⟩
        | link target => exact Or.inl ⟨_, rfl⟩
        | file n =>
          simp only [apply_bind, apply_demand, apply_change]
          cases fs.allows loc .write with
          | false => exact Or.inl ⟨_, rfl⟩
          | true => exact Or.inr (Or.inl ⟨loc, n, rfl, hn, rfl⟩)
    | vacant dir name =>
      simp only [apply_bind, apply_demand, apply_ask, apply_change]
      cases hallows : fs.allows dir .write with
      | false => exact Or.inl ⟨_, rfl⟩
      | true => exact Or.inr (Or.inr ⟨dir, name, rfl, hallows, rfl⟩)

/-- Adding bytes to a file leaves everything as it was, or changes its inode. -/
theorem append_apply (n : Nat) (bytes : Bytes) (fs : FileSystem) :
    (append n bytes : Call ε Unit).apply fs = (.ok (), fs) ∨
      ∃ f, (append n bytes : Call ε Unit).apply fs = (.ok (), fs.updateInode n f) := by
  rw [append]
  split
  · exact Or.inl rfl
  · exact Or.inr ⟨_, rfl⟩

/-- **Making a link** fails, or puts one at a free name. -/
theorem makeLink_apply (target : String) (p : Path) (fs : FileSystem) :
    (∃ e, (makeLink target p).apply fs = (.error e, fs)) ∨
      ∃ dir name, fs.locateName p = .ok (.vacant dir name) ∧
        (makeLink target p).apply fs = (.ok (), fs.put (name :: dir) (.link target)) := by
  rw [makeLink, apply_bind, apply_askResult]
  cases checkCallPath ⟨target⟩ with
  | error e => exact Or.inl ⟨e, rfl⟩
  | ok u =>
    simp only [apply_bind, apply_askResult]
    cases hp : fs.locateName p with
    | error e => exact Or.inl ⟨e, rfl⟩
    | ok s =>
      cases s with
      | present loc => exact Or.inl ⟨_, rfl⟩
      | vacant dir name =>
        simp only
        split
        · exact Or.inl ⟨_, rfl⟩
        · simp only [apply_bind, apply_demand, apply_change]
          cases fs.allows dir .write with
          | false => exact Or.inl ⟨_, rfl⟩
          | true => exact Or.inr ⟨dir, name, rfl, rfl⟩

/-- **Changing permissions** fails, or changes those of the node that a path leads to. -/
theorem setMode_apply (p : Path) (mode : Mode) (fs : FileSystem) :
    (∃ e, (setMode p mode).apply fs = (.error e, fs)) ∨
      ∃ loc, fs.find true p = .ok loc ∧
        (setMode p mode).apply fs = (.ok (), setModeAt loc mode fs) := by
  rw [setMode, apply_bind, apply_askResult]
  cases hp : fs.find true p with
  | error e => exact Or.inl ⟨e, rfl⟩
  | ok loc => exact Or.inr ⟨loc, rfl, rfl⟩

/-- Giving permissions succeeds where a path leads somewhere. -/
theorem setMode_of_find {loc : Location} (h : fs.find true p = .ok loc) (mode : Mode) :
    (setMode p mode).apply fs = (.ok (), setModeAt loc mode fs) := by
  rw [setMode, apply_bind, apply_askResult, h]
  rfl

/-- **Removing a file** fails, or removes what is no directory. -/
theorem removeFile_apply (p : Path) (fs : FileSystem) :
    (∃ e, (removeFile p).apply fs = (.error e, fs)) ∨
      ∃ loc, fs.locateName p = .ok (.present loc) ∧ fs.isDirectoryAt loc = false ∧
        (removeFile p).apply fs = (.ok (), fs.cut loc) := by
  rw [removeFile, apply_bind, apply_askResult]
  cases hp : fs.locateName p with
  | error e => exact Or.inl ⟨e, rfl⟩
  | ok s =>
    cases s with
    | vacant dir name => exact Or.inl ⟨_, rfl⟩
    | present loc =>
      simp only [apply_bind, apply_ask]
      split
      · exact Or.inl ⟨_, rfl⟩
      split
      · exact Or.inl ⟨_, rfl⟩
      simp only [apply_bind, demandRemoval, apply_demand]
      cases hpass : fs.allows loc.tail .pass with
      | false => exact Or.inl ⟨_, rfl⟩
      | true =>
        simp only [if_true]
        cases hwrite : fs.allows loc.tail .write with
        | false => exact Or.inl ⟨_, rfl⟩
        | true =>
          simp only [if_true]
          cases hdir : fs.isDirectoryAt loc with
          | true => exact Or.inl ⟨_, rfl⟩
          | false => exact Or.inr ⟨loc, rfl, hdir, rfl⟩

/-- A directory in which names may be looked up, made and removed. -/
def Usable (fs : FileSystem) (loc : Location) : Prop :=
  ∃ mode, fs.node? loc = some (.directory mode) ∧ mode.allows .pass = true ∧
    mode.allows .write = true

namespace Usable
variable {loc : Location} (h : fs.Usable loc)
include h

theorem isDirectoryAt : fs.isDirectoryAt loc = true :=
  let ⟨mode, hmode, _⟩ := h
  isDirectoryAt_iff.mpr ⟨mode, hmode⟩

theorem allows : fs.allows loc .pass = true ∧ fs.allows loc .write = true := by
  obtain ⟨mode, hmode, hpass, hwrite⟩ := h
  simp [FileSystem.allows, hmode, hpass, hwrite]

theorem mono (hin : NodesIn fs fs') : fs'.Usable loc :=
  h.imp fun _ hmode => ⟨hin _ _ hmode.1, hmode.2⟩

end Usable

/-- A free name that a call may make is one in a usable directory. -/
theorem usable_of_vacant {dir : Location} {name : String}
    (h : fs.locateName p = .ok (.vacant dir name)) (hallows : fs.allows dir .write = true) :
    fs.Usable dir := by
  obtain ⟨mode, hmode, hpass⟩ := (locateName_eq_ok.mp h).2.looksUp_of_vacant.1.pass
  rw [FileSystem.allows, hmode] at hallows
  exact ⟨mode, hmode, hpass, hallows⟩

/-- A path under which a name is free does not end in dots. -/
theorem endsInDots_of_vacant {dir : Location} {name : String}
    (h : fs.locateName p = .ok (.vacant dir name)) : endsInDots p = false := by
  obtain ⟨-, hleads⟩ := locateName_eq_ok.mp h
  rw [endsInDots]
  rcases List.eq_nil_or_concat p.steps with hnil | ⟨init, last, hlast⟩
  · rw [hnil] at hleads
    cases hleads
  rw [List.concat_eq_append] at hlast
  rw [hlast] at hleads ⊢
  obtain ⟨_, _, -, hleads⟩ := hleads.of_append (List.cons_ne_nil last [])
  have hproper {cur : Location} {rest : List String} (hlook : fs.LooksUp .kept cur last rest) :
      Path.isDotName last = false := by
    simp [Path.isDotName, hlook.proper.2.1, hlook.proper.2.2]
  rw [List.getLast?_append, List.getLast?_singleton]
  cases hleads with
  | skip _ hrest | here _ hrest | up _ hrest => cases hrest
  | free hlook => exact hproper hlook
  | follow hlook => exact hproper hlook
  | enter hlook => exact hproper hlook

/-- **Removing succeeds** for what is no directory and lies in a usable one. -/
theorem removeFile_of_usable {loc : Location} (hdots : endsInDots p = false)
    (hslash : p.endsInSlash = false) (hloc : fs.locateName p = .ok (.present loc))
    (hdir : fs.isDirectoryAt loc = false) (husable : fs.Usable loc.tail) :
    (removeFile p).apply fs = (.ok (), fs.cut loc) := by
  obtain ⟨hpass, hwrite⟩ := husable.allows
  rw [removeFile, apply_bind, apply_askResult, hloc]
  simp only [apply_bind, apply_ask, hdir, hdots, hslash, demandRemoval, apply_demand, hpass,
    hwrite, Bool.and_false, Bool.or_false, Bool.false_eq_true, if_false, if_true, apply_change]

/-! ## Making directories -/

theorem keeps_ensureDir {I : FileSystem → Prop} {q : Path} (h : (makeDir q).Keeps I) :
    (ensureDir q).Keeps I := by
  refine .bind h.outcome fun r => ?_
  split
  · exact .pure _
  · refine .bind (.ask _) fun isDirectory => ?_
    split
    · exact .pure _
    · exact .throw _
  · exact .throw _

theorem keeps_ensureFirst {I : FileSystem → Prop} {paths : List Path}
    (h : ∀ q ∈ paths, (makeDir q).Keeps I) : (ensureFirst paths).Keeps I := by
  induction paths with
  | nil => exact .pure _
  | cons q paths ih =>
    have hq := keeps_ensureDir (h q List.mem_cons_self)
    rw [ensureFirst]
    split
    · exact .pure _
    · refine .bind hq.outcome fun r => ?_
      split
      · exact .pure _
      · exact .bind (ih fun q hq => h q (List.mem_cons_of_mem _ hq)) fun _ => hq
      · exact .throw _

/-- **What every directory made at a free name keeps**, making a directory with its
ancestors keeps. -/
theorem keeps_makeDirAll {I : FileSystem → Prop}
    (hstep : ∀ q ∈ p.ancestors, ∀ fs dir name mode, I fs →
      fs.locateName q = .ok (.vacant dir name) → I (fs.put (name :: dir) (.directory mode))) :
    (makeDirAll p).Keeps I := by
  refine keeps_ensureFirst fun q hq fs hfs => ?_
  rcases makeDir_apply q fs with ⟨e, h⟩ | ⟨dir, name, mode, hloc, h⟩
  · rwa [h]
  · rw [h]
    exact hstep q hq fs dir name mode hfs hloc

/-- Making the first of some directories succeeds and changes nothing, if it is there. -/
theorem ensureFirst_of_present {loc : Location} (hloc : fs.locateName p = .ok (.present loc))
    (hdir : fs.isDirectory p = true) (outer : List Path) :
    (ensureFirst (p :: outer)).apply fs = (.ok (), fs) := by
  have hmake : (makeDir p).apply fs = (.error (.os .alreadyExists), fs) := by
    rw [makeDir, apply_bind, apply_askResult, hloc]
    rfl
  have hensure : (ensureDir p).apply fs = (.ok (), fs) := by
    simp only [ensureDir, apply_bind, apply_outcome, hmake, apply_ask, hdir]
    rfl
  rw [ensureFirst]
  split
  · rfl
  · simp only [apply_bind, apply_outcome, hensure]
    rfl

/-- **Making a directory that is there** succeeds and changes nothing. -/
theorem makeDirAll_of_present {loc : Location} (hloc : fs.locateName p = .ok (.present loc))
    (hdir : fs.isDirectory p = true) : (makeDirAll p).apply fs = (.ok (), fs) :=
  ensureFirst_of_present hloc hdir _

/-! ## A directory with its ancestors -/

/-- A directory that is found is found with a slash at the end as well. -/
theorem Leads.append_slash {dots : DotNames} {b : Nat} {cur loc : Location} {names : List String}
    (h : Leads fs dots .followed b cur names (.present loc))
    (hdir : ∃ mode, fs.node? loc = some (.directory mode)) :
    Leads fs dots .followed b cur (names ++ [""]) (.present loc) := by
  obtain ⟨b', hresume⟩ := h.resume
  obtain ⟨mode, hmode⟩ := hdir
  refine leads_of_walk ?_
  rw [hresume _ [""] (by simp) (by simp), walk_eq, walkOn, directoryMode?_eq_some_iff.mpr hmode]
  simp [walkOn]

theorem find_mono {follow : Bool} {loc : Location} (h : fs.find follow p = .ok loc)
    (hin : Shows fs fs') (hdir : fs'.workingDir = fs.workingDir) :
    fs'.find follow p = .ok loc := by
  rw [find_eq_ok, locate_eq_ok] at h ⊢
  rw [startOf, hdir, ← startOf]
  exact ⟨h.1, h.2.mono_of_shows hin⟩

/-- A directory that has been made at a free name is found there. -/
theorem find_of_made {dir : Location} {name : String} {mode : Mode}
    (h : fs.locateName p = .ok (.vacant dir name)) :
    (fs.put (name :: dir) (.directory mode)).find true p = .ok (name :: dir) := by
  obtain ⟨hcheck, hleads⟩ := locateName_eq_ok.mp h
  have hmade := node?_put_self fs name dir (.directory mode)
  have hfill := hleads.fill (nodesIn_put hleads.of_vacant.2 (.directory mode)).shows hmade (by simp)
  refine find_eq_ok.mpr (locate_eq_ok.mpr ⟨hcheck, ?_⟩)
  show Leads _ .lookedUp .followed _ (fs.startOf p) _ _
  rw [Path.walkSteps]
  cases p.endsInSlash with
  | true => exact hfill.append_slash ⟨mode, hmade⟩
  | false => simpa using hfill

/-- A directory that has been made is there. -/
theorem isDirectory_of_ensureDir (h : (ensureDir p).apply fs = (.ok (), fs')) :
    fs'.isDirectory p = true := by
  rw [ensureDir, apply_bind, apply_outcome] at h
  rcases makeDir_apply p fs with ⟨e, hmake⟩ | ⟨dir, name, mode, hloc, hmake⟩ <;>
    simp only [hmake] at h
  · split at h
    · rename_i hok
      cases hok
    · -- something is there already
      rw [apply_bind, apply_ask] at h
      cases hdir : fs.isDirectory p with
      | true =>
        simp only [hdir, if_true, apply_pure, Prod.mk.injEq, true_and] at h
        rwa [← h]
      | false => simp [hdir] at h
    · cases h
  · obtain ⟨-, rfl⟩ := Prod.mk.inj h
    rw [isDirectory, find_of_made hloc]
    exact isDirectoryAt_iff.mpr ⟨mode, node?_put_self ..⟩

/-- **A directory that has been made with its ancestors** is there, if something had to be
made. -/
theorem isDirectory_of_makeDirAll (hp : p ≠ .empty) (hparent : p.parent? ≠ none)
    (h : (makeDirAll p).apply fs = (.ok (), fs')) : fs'.isDirectory p = true := by
  have hneeded : ¬(p.text = "" || p.parent?.isNone) = true := by
    have htext : p.text ≠ "" := fun he => hp (congrArg Path.mk he)
    simpa [htext] using hparent
  rw [makeDirAll, Path.ancestors, Path.ancestorsUpTo, ensureFirst, if_neg hneeded, apply_bind,
    apply_outcome] at h
  rcases hensure : (ensureDir p).apply fs with ⟨result, fs₁⟩
  simp only [hensure] at h
  split at h
  · obtain ⟨-, rfl⟩ := Prod.mk.inj h
    exact isDirectory_of_ensureDir hensure
  · rw [apply_bind] at h
    split at h
    · exact isDirectory_of_ensureDir h
    · cases h
  · cases h

/-- A location was free, and an ancestor of a path leads to the directory that it holds
now. -/
structure MadeFor (fs : FileSystem) (p : Path) (fs' : FileSystem) (loc : Location) : Prop where
  free : fs.node? loc = none
  directory : fs'.isDirectoryAt loc = true
  found : ∃ q ∈ p.ancestors, fs'.find true q = .ok loc

/-- **Making a directory with its ancestors** makes directories that are missing along the
path, and nothing else. -/
theorem makeDirAll_ensures (hwf : fs.WellFormed) (p : Path) :
    (makeDirAll p).Ensures fs fun _ fs' => fs'.WellFormed ∧ NodesIn fs fs' ∧
      ChangedOnly (fs.MadeFor p fs') fs fs' := by
  refine keeps_makeDirAll (I := fun fs' => fs'.WellFormed ∧ NodesIn fs fs' ∧
    ChangedOnly (fs.MadeFor p fs') fs fs') ?_ fs ⟨hwf, .refl fs, .refl fs⟩
  rintro q hq fs' dir name mode ⟨hwf', hin, hchanged⟩ hloc
  have hleads := (locateName_eq_ok.mp hloc).2
  obtain ⟨hdir, hfree⟩ := hleads.of_vacant
  have hput := nodesIn_put hfree (.directory mode)
  refine ⟨hwf'.put_of_vacant (hleads.isName_of_vacant fun x hx => (Path.mem_steps hx).2) hdir hfree
    (by simp), hin.trans hput, (hchanged.mono fun loc h => ?_).trans (changedOnly_put _ ?_)⟩
  · obtain ⟨hfree, hdirectory, q', hq', hfind⟩ := h
    obtain ⟨mode', hmode'⟩ := isDirectoryAt_iff.mp hdirectory
    exact ⟨hfree, isDirectoryAt_iff.mpr ⟨mode', hput _ _ hmode'⟩, q', hq',
      find_mono hfind hput.shows rfl⟩
  · refine ⟨?_, isDirectoryAt_iff.mpr ⟨mode, node?_put_self ..⟩, q, hq, find_of_made hloc⟩
    cases hn : fs.node? (name :: dir) with
    | none => rfl
    | some node => rw [hin _ _ hn] at hfree; cases hfree

end Stowage.FileSystem
