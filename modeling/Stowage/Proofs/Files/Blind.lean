import Stowage.Proofs.Files.Calls

/-!
# Calls and what is open

Most calls do not look at the open files (`Call.IsBlind`).  Those that do open a file and read
it, and what they read is found wherever the file is opened again: only the number of the open
file is another one.

So the same work can be done in two states that differ in what is open, and comes to the same
(`Call.Agrees`).  In such states one call agrees with another step by step (`Agrees.bind`).
-/

namespace Stowage.FileSystem

open Result Call

variable {fs fs' fs₁ fs₁' : FileSystem} {p : Path} {ε ε' α β : Type}

/-! ## More that does not depend on the open files -/

section OpenFiles
variable (fs : FileSystem) (files : List OpenFile)

@[simp] theorem locate_openFiles (last : LastName) (p : Path) :
    { fs with openFiles := files }.locate last p = fs.locate last p := by
  simp only [locate, walkNames_openFiles]

@[simp] theorem isPresent_openFiles (p : Path) :
    { fs with openFiles := files }.isPresent p = fs.isPresent p := by
  rw [isPresent, isPresent, find_openFiles]

theorem landing_openFiles (root : Path) (paths : List Path) (missing : List Component) :
    { fs with openFiles := files }.landing root paths missing =
      fs.landing root paths missing := by
  induction paths generalizing missing with
  | nil => rfl
  | cons p outer ih => simp only [landing, canonicalize_openFiles, isPresent_openFiles, ih]

@[simp] theorem resolveUnder_openFiles (root p : Path) :
    { fs with openFiles := files }.resolveUnder root p = fs.resolveUnder root p :=
  landing_openFiles fs files root p.ancestors []

@[simp] theorem linkStaysUnder_openFiles (root link target : Path) :
    { fs with openFiles := files }.linkStaysUnder root link target =
      fs.linkStaysUnder root link target := by
  rw [linkStaysUnder, linkStaysUnder, resolveUnder_openFiles]

end OpenFiles

/-! ## Blind calls -/

namespace Call.IsBlind

theorem withError {c : Call ε α} (f : ε → ε') (hc : c.IsBlind) : (c.withError f).IsBlind :=
  fun fs files => by rw [apply_withError, apply_withError, hc fs files]

theorem change {f : FileSystem → FileSystem}
    (h : ∀ fs files, f { fs with openFiles := files } = { f fs with openFiles := files }) :
    (change f : Call ε Unit).IsBlind := fun fs files => by
  rw [apply_change, apply_change, h]

/-- A call that is refused under some condition. -/
theorem guard {b : Prop} [Decidable b] {e : ε} {c : Call ε α} (hc : c.IsBlind) :
    (if b then (MonadExcept.throw e : Call ε PUnit) >>= fun _ => c else c).IsBlind := by
  split
  · exact .bind (.throw e) fun _ => hc
  · exact hc

/-- It opens nothing and reads nothing. -/
theorem openFiles_eq {c : Call ε α} (hc : c.IsBlind) {result : Except ε α}
    (h : c.apply fs = (result, fs')) : fs'.openFiles = fs.openFiles := by
  have hblind := congrArg Prod.snd (hc fs fs.openFiles)
  have hsame := congrArg FileSystem.openFiles hblind
  rwa [show { fs with openFiles := fs.openFiles } = fs from rfl, h] at hsame

end Call.IsBlind

/-- **Opening a file for writing** does not depend on what is open for reading. -/
theorem isBlind_createFile (p : Path) (mode : Mode) : (createFile p mode).IsBlind := by
  refine .bind (.askResult fun fs files => locate_openFiles fs files .filled p) fun s => ?_
  cases s with
  | present loc =>
    refine .bind (.ask fun fs files => node?_openFiles fs files loc) fun node => ?_
    split
    · exact .bind (isBlind_demand loc .write) fun _ => .bind (.change fun _ _ => rfl) fun _ =>
        .pure _
    · exact .throw _
  | vacant dir name =>
    exact .bind (isBlind_demand dir .write) fun _ => .bind (.ask fun _ _ => rfl) fun n =>
      .bind (.change fun _ _ => rfl) fun _ => .pure n

theorem isBlind_append (n : Nat) (bytes : Bytes) : (append n bytes : Call ε Unit).IsBlind := by
  rw [append]
  split <;> exact .change fun _ _ => rfl

theorem isBlind_makeLink (target : String) (p : Path) : (makeLink target p).IsBlind := by
  refine .bind (.askResult fun _ _ => rfl) fun _ =>
    .bind (.askResult fun fs files => locateName_openFiles fs files p) fun s => ?_
  cases s with
  | present loc => exact .throw _
  | vacant dir name =>
    have hput : (change (·.put (name :: dir) (.link target)) : Call FileError Unit).IsBlind :=
      .change fun _ _ => rfl
    exact .guard (.bind (isBlind_demand dir .write) fun _ => hput)

theorem setModeAt_openFiles (fs : FileSystem) (files : List OpenFile) (loc : Location)
    (mode : Mode) :
    setModeAt loc mode { fs with openFiles := files } =
      { setModeAt loc mode fs with openFiles := files } := by
  rw [setModeAt, setModeAt, node?_openFiles]
  cases fs.node? loc with
  | none => rfl
  | some node => cases node <;> rfl

theorem isBlind_setMode (p : Path) (mode : Mode) : (setMode p mode).IsBlind :=
  .bind (.askResult fun fs files => find_openFiles fs files true p) fun loc =>
    .change fun fs files => setModeAt_openFiles fs files loc mode

theorem isBlind_removeFile (p : Path) : (removeFile p).IsBlind := by
  refine .bind (.askResult fun fs files => locateName_openFiles fs files p) fun s => ?_
  cases s with
  | vacant dir name => exact .throw _
  | present loc =>
    refine .bind (.ask fun fs files => isDirectoryAt_openFiles fs files loc) fun isDirectory => ?_
    have hremoval : (demandRemoval loc).IsBlind :=
      .bind (isBlind_demand loc.tail .pass) fun _ => isBlind_demand loc.tail .write
    have hcut : (change (·.cut loc) : Call FileError Unit).IsBlind := .change fun _ _ => rfl
    exact .guard (.guard (.bind hremoval fun _ => .guard hcut))

/-! ## Agreement -/

/-- **Two calls agree**, each in a state of its own: they have the same result, and leave the same
file system but for what is open. -/
structure Call.Agrees (c : Call ε α) (fs : FileSystem) (c' : Call ε α) (fs' : FileSystem) :
    Prop where
  result : (c'.apply fs').1 = (c.apply fs).1
  quiet : Quiet (c.apply fs).2 (c'.apply fs').2

namespace Call.Agrees
variable {c c' : Call ε α}

theorem of_isBlind (hc : c.IsBlind) (hq : Quiet fs fs') : Agrees c fs c fs' := by
  obtain ⟨files, rfl⟩ := hq
  constructor
  · rw [hc fs files]
  · rw [hc fs files]
    exact ⟨files, rfl⟩

/-- Calls that only read agree on what they read. -/
theorem of_isQuiet (hc : c.IsQuiet) (hc' : c'.IsQuiet) (hq : Quiet fs fs')
    (hresult : (c'.apply fs').1 = (c.apply fs).1) : Agrees c fs c' fs' :=
  ⟨hresult, (hc.apply fs).symm.trans (hq.trans (hc'.apply fs'))⟩

/-- What agrees goes on to agree. -/
theorem bind {f f' : α → Call ε β} (hc : Agrees c fs c' fs')
    (hf : ∀ a fs₁ fs₁', c.apply fs = (.ok a, fs₁) → c'.apply fs' = (.ok a, fs₁') →
      Quiet fs₁ fs₁' → Agrees (f a) fs₁ (f' a) fs₁') :
    Agrees (c >>= f) fs (c' >>= f') fs' := by
  obtain ⟨hresult, hquiet⟩ := hc
  rcases happly : c.apply fs with ⟨result, fs₁⟩
  rcases happly' : c'.apply fs' with ⟨result', fs₁'⟩
  rw [happly, happly'] at hresult hquiet
  obtain rfl : result' = result := hresult
  cases result' with
  | ok a =>
    obtain ⟨hresult₁, hquiet₁⟩ := hf a fs₁ fs₁' happly happly' hquiet
    constructor <;> simpa only [apply_bind, happly, happly']
  | error e =>
    constructor <;> simp only [apply_bind, happly, happly', hquiet]

/-- What has come to something in both states may go on with it. -/
theorem bind_ok {a a' : α} {f f' : α → Call ε β} (hc : c.apply fs = (.ok a, fs₁))
    (hc' : c'.apply fs' = (.ok a', fs₁')) (hf : Agrees (f a) fs₁ (f' a') fs₁') :
    Agrees (c >>= f) fs (c' >>= f') fs' := by
  obtain ⟨hresult, hquiet⟩ := hf
  constructor <;> simpa only [apply_bind, hc, hc']

theorem bind_error {e : ε} {f f' : α → Call ε β} (hc : c.apply fs = (.error e, fs₁))
    (hc' : c'.apply fs' = (.error e, fs₁')) (hq : Quiet fs₁ fs₁') :
    Agrees (c >>= f) fs (c' >>= f') fs' where
  result := by rw [apply_bind, apply_bind, hc, hc']
  quiet := by rw [apply_bind, apply_bind, hc, hc']; exact hq

theorem ask {f f' : FileSystem → α} (h : f' fs' = f fs) (hq : Quiet fs fs') :
    Agrees (.ask f : Call ε α) fs (.ask f') fs' := ⟨congrArg Except.ok h, hq⟩

theorem withError {f : ε → ε'} (hc : Agrees c fs c' fs') :
    Agrees (c.withError f) fs (c'.withError f) fs' where
  result := by rw [apply_withError, apply_withError, hc.result]
  quiet := hc.quiet

end Call.Agrees

/-- The same file has been opened in both states. -/
theorem Quiet.contentOf_eq (hq : Quiet fs fs') {file file' : Handle} {f f' : OpenFile}
    (hf : fs.openFiles[file]? = some f) (hf' : fs'.openFiles[file']? = some f')
    (h : f'.target = f.target) : fs'.contentOf file' = fs.contentOf file := by
  obtain ⟨target, position⟩ := f
  obtain ⟨target', position'⟩ := f'
  obtain rfl : target' = target := h
  rw [FileSystem.contentOf, FileSystem.contentOf, hf, hf']
  obtain ⟨files, rfl⟩ := hq
  cases target' <;> rfl

/-- Opening a file fails, or adds one to what is open. -/
theorem openFile_cases (p : Path) (fs : FileSystem) :
    (∃ e, ∀ files, (openFile p).apply { fs with openFiles := files } =
      (.error e, { fs with openFiles := files })) ∨
    ∃ target, ∀ files, (openFile p).apply { fs with openFiles := files } =
      (.ok files.length, { fs with openFiles := files ++ [⟨target, 0⟩] }) := by
  simp only [openFile, apply_bind, apply_askResult, find_openFiles]
  cases fs.find true p with
  | error e => exact .inl ⟨e, fun _ => rfl⟩
  | ok loc =>
    simp only [apply_demand, allows_openFiles]
    cases fs.allows loc .read with
    | false => exact .inl ⟨_, fun _ => rfl⟩
    | true =>
      simp only [if_true, apply_ask, apply_change, apply_pure, node?_openFiles]
      exact .inr ⟨_, fun _ => rfl⟩

/-- **Opening a file** gives it another number, and that is all that depends on what is open. -/
theorem openFile_twice (hq : Quiet fs fs') (p : Path) :
    (∃ e, (openFile p).apply fs = (.error e, fs) ∧ (openFile p).apply fs' = (.error e, fs')) ∨
    ∃ file file' fs₁ fs₁' target, (openFile p).apply fs = (.ok file, fs₁) ∧
      (openFile p).apply fs' = (.ok file', fs₁') ∧ Quiet fs₁ fs₁' ∧
      fs₁.openFiles[file]? = some ⟨target, 0⟩ ∧ fs₁'.openFiles[file']? = some ⟨target, 0⟩ := by
  obtain ⟨files, rfl⟩ := hq
  obtain ⟨e, hopen⟩ | ⟨target, hopen⟩ := openFile_cases p fs
  · exact .inl ⟨e, hopen fs.openFiles, hopen files⟩
  · exact .inr ⟨_, _, _, _, target, hopen fs.openFiles, hopen files, ⟨_, rfl⟩,
      List.getElem?_concat_length, List.getElem?_concat_length⟩

/-- **Copying a file** comes to the same, whatever is open before. -/
theorem agrees_copyFile (hq : Quiet fs fs') (source target : Path) :
    Agrees (copyFile source target) fs (copyFile source target) fs' := by
  obtain ⟨e, hopen, hopen'⟩ | ⟨file, file', fs₁, fs₁', opened, hopen, hopen', hq₁, hfile, hfile'⟩ :=
    openFile_twice hq source
  · exact .bind_error hopen hopen' hq
  refine .bind_ok hopen hopen' (.bind (.ask (by rw [hfile, hfile']) hq₁) ?_)
  rintro f fs₂ fs₂' hf hf' -
  obtain ⟨rfl, rfl⟩ : some ⟨opened, 0⟩ = f ∧ fs₁ = fs₂ := by
    rw [apply_ask, hfile] at hf
    cases hf
    exact ⟨rfl, rfl⟩
  obtain rfl : fs₁' = fs₂' := congrArg Prod.snd hf'
  cases opened with
  | directory => exact .of_isBlind (.throw _) hq₁
  | file n =>
    have hmode : (fs₁'.inode n).mode = (fs₁.inode n).mode := by
      obtain ⟨files, rfl⟩ := hq₁
      rfl
    refine .bind (.ask hmode hq₁) fun mode _ _ hask hask' hq₂ => ?_
    obtain rfl : fs₁ = _ := congrArg Prod.snd hask
    obtain rfl : fs₁' = _ := congrArg Prod.snd hask'
    refine .bind (.of_isBlind (isBlind_createFile target mode) hq₂)
      fun m fs₃ fs₃' hcreate hcreate' hq₃ => ?_
    have hchange : (change (·.updateInode m ({ · with mode })) : Call FileError Unit).IsBlind :=
      .change fun _ _ => rfl
    refine .bind (.of_isBlind hchange hq₃) fun _ fs₄ fs₄' hset hset' hq₄ => ?_
    -- the file is still the one that has been opened
    have hopened : fs₄.openFiles = fs₁.openFiles :=
      (hchange.openFiles_eq hset).trans ((isBlind_createFile target mode).openFiles_eq hcreate)
    have hopened' : fs₄'.openFiles = fs₁'.openFiles :=
      (hchange.openFiles_eq hset').trans ((isBlind_createFile target mode).openFiles_eq hcreate')
    rw [← hopened] at hfile
    rw [← hopened'] at hfile'
    have hunread : fs₄'.unread file' = fs₄.unread file := by
      rw [FileSystem.unread, FileSystem.unread, hfile, hfile',
        hq₄.contentOf_eq hfile hfile' rfl]
    exact .bind (.ask hunread hq₄) fun bytes _ _ _ _ hq₅ => .of_isBlind (isBlind_append m bytes) hq₅

end Stowage.FileSystem
