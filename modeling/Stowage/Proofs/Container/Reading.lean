import Stowage.Container.Builder
import Stowage.Proofs.Container.Scan
import Stowage.Proofs.Container.Table
import Stowage.Proofs.Files.Calls

/-!
# Opening as a function of the content

Opening a container reads an open file back and forth.  What it finds depends on nothing
but the bytes of the file: `load_apply` equates it with `Archive.ofContent`, which is a
function of those bytes, and leaves the file open with the same bytes behind it
(`FileSystem.Serves`).
-/

namespace Stowage

open FileSystem Result

variable {fs : FileSystem} {file : Handle} {content : Bytes} {path : Path} {position : Nat}

/-! ## Open files with a known content -/

namespace FileSystem

/-- An open file has the given bytes behind it and is read next at the given position. -/
def Serves (fs : FileSystem) (file : Handle) (content : Bytes) (position : Nat) : Prop :=
  ∃ n, fs.openFiles[file]? = some ⟨.file n, position⟩ ∧ (fs.inode n).bytes = content

theorem Serves.contentOf (h : fs.Serves file content position) : fs.contentOf file = content := by
  obtain ⟨n, hfile, hbytes⟩ := h
  rw [FileSystem.contentOf, hfile]
  exact hbytes

theorem Serves.unread (h : fs.Serves file content position) :
    fs.unread file = content.drop position := by
  obtain ⟨n, hfile, -⟩ := id h
  rw [FileSystem.unread, hfile, h.contentOf]

theorem Serves.isOpenDirectory (h : fs.Serves file content position) :
    fs.isOpenDirectory file = false := by
  obtain ⟨n, hfile, -⟩ := h
  rw [FileSystem.isOpenDirectory, hfile]

theorem content_eq_ok : fs.content path = .ok content ↔ ∃ loc n,
    fs.find true path = .ok loc ∧ fs.allows loc .read = true ∧
      fs.node? loc = some (.file n) ∧ (fs.inode n).bytes = content := by
  constructor
  · intro h
    obtain ⟨loc, hfind, h⟩ := bind_eq_ok.mp h
    by_cases hallows : fs.allows loc .read = true
    · rw [hallows] at h
      cases hnode : fs.node? loc with
      | none => rw [hnode] at h; cases h
      | some node =>
        rw [hnode] at h
        cases node with
        | directory mode => cases h
        | link target => cases h
        | file n => cases h; exact ⟨loc, n, hfind, hallows, hnode, rfl⟩
    · rw [Bool.not_eq_true] at hallows
      rw [hallows] at h
      cases h
  · rintro ⟨loc, n, hfind, hallows, hnode, rfl⟩
    refine bind_eq_ok.mpr ⟨loc, hfind, ?_⟩
    rw [hallows, hnode]
    rfl

/-- A file with a content is opened for reading. -/
theorem openFile_apply (h : fs.content path = .ok content) :
    ∃ fs', (openFile path).apply fs = (.ok fs.openFiles.length, fs') ∧
      fs'.Serves fs.openFiles.length content 0 := by
  obtain ⟨loc, n, hfind, hallows, hnode, hbytes⟩ := content_eq_ok.mp h
  refine ⟨{ fs with openFiles := fs.openFiles ++ [⟨.file n, 0⟩] }, ?_, n, ?_, hbytes⟩
  · simp only [openFile, Call.apply_bind, Call.apply_askResult, hfind, Call.apply_demand,
      hallows, if_true, Call.apply_ask, Call.apply_change, Call.apply_pure, hnode]
  · exact List.getElem?_concat_length

/-- **What has been opened as a file** has the content that the path leads to. -/
theorem content_of_openFile {fs' : FileSystem} {n : Nat}
    (h : (openFile path).apply fs = (.ok file, fs'))
    (hfile : fs'.openFiles[file]? = some ⟨.file n, position⟩) :
    fs.content path = .ok (fs.inode n).bytes ∧ position = 0 ∧
      ∃ loc, fs.node? loc = some (.file n) := by
  rw [openFile, Call.apply_bind, Call.apply_askResult] at h
  cases hfind : fs.find true path with
  | error e => rw [hfind] at h; cases h
  | ok loc =>
    rw [hfind] at h
    simp only [Call.apply_bind, Call.apply_demand, Call.apply_ask, Call.apply_change,
      Call.apply_pure] at h
    cases hallows : fs.allows loc .read with
    | false => rw [hallows] at h; cases h
    | true =>
      rw [hallows] at h
      cases h
      have hopened := List.getElem?_concat_length.symm.trans hfile
      cases hnode : fs.node? loc with
      | none => rw [hnode] at hopened; cases hopened
      | some node =>
        rw [hnode] at hopened
        cases node with
        | directory mode => cases hopened
        | link target => cases hopened
        | file m =>
          cases hopened
          exact ⟨content_eq_ok.mpr ⟨loc, n, hfind, hallows, hnode, rfl⟩, rfl, loc, hnode⟩

theorem Serves.lengthOf {ε : Type} (h : fs.Serves file content position) :
    (FileSystem.lengthOf file : Call ε Nat).apply fs = (.ok content.length, fs) := by
  rw [FileSystem.lengthOf, Call.apply_ask, h.isOpenDirectory, h.contentOf]
  rfl

/-- An open file keeps its bytes when its position changes. -/
theorem Serves.modify {f : OpenFile → OpenFile} {next : Nat} (h : fs.Serves file content position)
    (hf : ∀ n, f ⟨.file n, position⟩ = ⟨.file n, next⟩) :
    { fs with openFiles := fs.openFiles.modify file f }.Serves file content next := by
  obtain ⟨n, hfile, hbytes⟩ := h
  refine ⟨n, ?_, hbytes⟩
  rw [List.getElem?_modify_eq, hfile]
  exact congrArg some (hf n)

theorem Serves.seek {ε : Type} (h : fs.Serves file content position) (next : Nat) :
    ∃ fs', (FileSystem.seek file next : Call ε Unit).apply fs = (.ok (), fs') ∧
      fs'.Serves file content next :=
  ⟨_, rfl, h.modify fun _ => rfl⟩

theorem Serves.advance {ε : Type} (h : fs.Serves file content position) (count : Nat) :
    ∃ fs', (FileSystem.advance file count : Call ε Unit).apply fs = (.ok (), fs') ∧
      fs'.Serves file content (position + count) :=
  ⟨_, rfl, h.modify fun _ => rfl⟩

/-- Bytes that are there are read. -/
theorem Serves.readExact {n : Nat} (h : fs.Serves file content position)
    (hle : position + n ≤ content.length) :
    ∃ fs', (FileSystem.readExact file n).apply fs =
        (.ok ((content.drop position).take n), fs') ∧
      fs'.Serves file content (position + n) := by
  have hlength : ((content.drop position).take n).length = n := by
    rw [List.length_take, List.length_drop]
    omega
  obtain ⟨fs', hadvance, hserves⟩ := h.advance (ε := FileError) n
  refine ⟨fs', ?_, hserves⟩
  have hdirectory : (decide (0 < n) && fs.isOpenDirectory file) = false := by
    rw [h.isOpenDirectory, Bool.and_false]
  simp only [FileSystem.readExact, Call.apply_bind, Call.apply_ask]
  rw [hdirectory]
  simp only [Call.apply_bind, Call.apply_ask, h.unread, hlength, hadvance, Nat.lt_irrefl,
    if_false, Call.apply_pure, Bool.false_eq_true]

/-- A file system with one file, `/a`. -/
def holding (content : Bytes) : FileSystem where
  nodes := [(["a"], .file 0)]
  inodes := [⟨Mode.file, content⟩]
  openFiles := []
  workingDir := []
  serial := 0
  journal := []

theorem content_holding (content : Bytes) : (holding content).content ⟨"/a"⟩ = .ok content := by
  have hlooks : (holding content).LooksUp .followed [] "a" [] :=
    ⟨by decide, ⟨Mode.directory, rfl, by decide⟩, by decide, by decide⟩
  have hsteps : Path.walkSteps ⟨"/a"⟩ = ["a"] := by decide
  have hleads : Leads (holding content) .lookedUp .followed maxLinks [] (Path.walkSteps ⟨"/a"⟩)
      (.present ["a"]) := by
    rw [hsteps]
    exact .enter hlooks rfl (fun target h => by cases h) (.arrive _ _)
  have hallows : Mode.file.allows .read = true := by decide
  exact content_eq_ok.mpr
    ⟨["a"], 0, find_eq_ok.mpr (locate_eq_ok.mpr ⟨rfl, hleads⟩), hallows, rfl, rfl⟩

end FileSystem

/-! ## Opening -/

namespace Archive

/-- What is known before the table is read: the cookie, where the container starts and
where its table starts. -/
def plan (path : Path) (content : Bytes) : Except ArchiveFault (Cookie × Nat × Nat) :=
  if content.length < Cookie.size then .error (.noCookie path)
  else match Scan.lastIn Cookie.magic content with
    | none => .error (.noCookie path)
    | some position =>
      if content.length < position + Cookie.size then
        .error (.truncated (.cookieBeyondFile position content.length))
      else do
        let cookie ← Cookie.parse ((content.drop position).take Cookie.size)
        let (baseOffset, start) ← layOut position cookie
        return (cookie, baseOffset, start)

/-- The archive in a file with the given content. -/
def ofContent (path : Path) (file : Handle) (content : Bytes) : Except ArchiveFault Archive := do
  let (cookie, baseOffset, start) ← plan path content
  let table := (content.drop start).take cookie.contentsLength.toNat
  let needsExtraction ← checkTable table
  return { path, file, fileLength := content.length, baseOffset, cookie, table, needsExtraction }

theorem layOut_eq_ok {cookie : Cookie} {base start : Nat} :
    layOut position cookie = .ok (base, start) ↔
      cookie.containerLength.toNat ≤ position + Cookie.size ∧
      base = position + Cookie.size - cookie.containerLength.toNat ∧
      start = base + cookie.contentsOffset.toNat ∧
      start + cookie.contentsLength.toNat ≤ position := by
  rw [layOut]
  by_cases hlong : position + Cookie.size < cookie.containerLength.toNat
  · simp only [hlong, if_true]
    refine ⟨fun h => (by cases h), ?_⟩
    rintro ⟨hle, -⟩
    omega
  by_cases hover : position < position + Cookie.size - cookie.containerLength.toNat +
      cookie.contentsOffset.toNat + cookie.contentsLength.toNat
  · simp only [hlong, if_false, hover, if_true]
    refine ⟨fun h => (by cases h), ?_⟩
    rintro ⟨-, rfl, rfl, hle⟩
    omega
  · simp only [hlong, if_false, hover]
    refine ⟨fun h => ?_, ?_⟩
    · cases h
      exact ⟨by omega, rfl, rfl, by omega⟩
    · rintro ⟨-, rfl, rfl, -⟩
      rfl

theorem apply_findLast {pattern : Bytes} (h : fs.Serves file content position) (length : Nat) :
    (findLast pattern file length).apply fs =
      (Scan.lastOccurrence content length pattern, fs) := by
  simp only [findLast, Call.apply_bind, Call.apply_ask, h.isOpenDirectory, Bool.false_eq_true,
    if_false, Call.apply_askResult, h.contentOf]

/-- **Opening depends on the content only**, and leaves the file open. -/
theorem load_apply (h : fs.content path = .ok content) :
    ∃ fs' position, (load path).apply fs =
        ((ofContent path fs.openFiles.length content).mapError .plain, fs') ∧
      fs'.Serves fs.openFiles.length content position := by
  obtain ⟨fs₁, hopen, h₁⟩ := openFile_apply h
  rw [ofContent, plan, load]
  simp only [Call.apply_bind, Call.apply_withError, hopen, mapError_ok, h₁.lengthOf]
  by_cases hshort : content.length < Cookie.size
  · simp only [hshort, if_true, refuse]
    exact ⟨fs₁, 0, rfl, h₁⟩
  have hfind : ((findLast Cookie.magic fs.openFiles.length content.length).withError
      ArchiveError.ofFile).apply fs₁ = (.ok (Scan.lastIn Cookie.magic content), fs₁) := by
    rw [Call.apply_withError, apply_findLast h₁,
      Scan.lastOccurrence_eq_lastIn (by decide) (by decide)]
    rfl
  simp only [hshort, if_false, Call.apply_bind, hfind]
  cases Scan.lastIn Cookie.magic content with
  | none => exact ⟨fs₁, 0, rfl, h₁⟩
  | some position =>
    simp only [loadAt]
    by_cases hbeyond : content.length < position + Cookie.size
    · simp only [hbeyond, if_true, refuse]
      exact ⟨fs₁, 0, rfl, h₁⟩
    obtain ⟨fs₂, hseek, h₂⟩ := h₁.seek (ε := ArchiveError) position
    obtain ⟨fs₃, hread, h₃⟩ := h₂.readExact (Nat.le_of_not_lt hbeyond)
    simp only [hbeyond, if_false, Call.apply_bind, hseek, Call.apply_withError, hread,
      mapError_ok, accept, Call.apply_askResult]
    cases hcookie : Cookie.parse ((content.drop position).take Cookie.size) with
    | error fault => exact ⟨fs₃, _, rfl, h₃⟩
    | ok cookie =>
      simp only [mapError_ok, ok_bind]
      cases hlayout : layOut position cookie with
      | error fault => exact ⟨fs₃, _, rfl, h₃⟩
      | ok places =>
        obtain ⟨-, -, -, hstop⟩ := layOut_eq_ok.mp hlayout
        obtain ⟨fs₄, hseek', h₄⟩ := h₃.seek (ε := ArchiveError) places.2
        obtain ⟨fs₅, hread', h₅⟩ := h₄.readExact (n := cookie.contentsLength.toNat)
          (by rw [Cookie.size] at hbeyond; omega)
        simp only [mapError_ok, hseek', hread', ok_bind]
        refine ⟨fs₅, _, ?_, h₅⟩
        simp only [pure, Except.pure, ok_bind]
        cases checkTable ((content.drop places.2).take cookie.contentsLength.toNat) <;> rfl

/-- **What can be opened can be read**: it is a file. -/
theorem content_of_load {a : Archive} (h : ((load path).apply fs).1 = .ok a) :
    ∃ content, fs.content path = .ok content := by
  cases hfind : fs.find true path with
  | error e => simp [load, openFile, Call.apply_bind, hfind] at h
  | ok loc =>
    by_cases hallows : fs.allows loc .read = true
    · by_cases hfile : ∃ n, fs.node? loc = some (.file n)
      · obtain ⟨n, hnode⟩ := hfile
        exact ⟨_, content_eq_ok.mpr ⟨loc, n, hfind, hallows, hnode, rfl⟩⟩
      · -- a directory can be opened, but not searched for a cookie
        have hopen : (openFile path).apply fs = (.ok fs.openFiles.length,
            { fs with openFiles := fs.openFiles ++ [⟨.directory, 0⟩] }) := by
          simp only [openFile, Call.apply_bind, Call.apply_askResult, hfind, Call.apply_demand,
            hallows, if_true, Call.apply_ask, Call.apply_change, Call.apply_pure]
          split
          · rename_i n hnode
            exact absurd ⟨n, hnode⟩ hfile
          · rfl
        have hdirectory : FileSystem.isOpenDirectory
            { fs with openFiles := fs.openFiles ++ [⟨.directory, 0⟩] } fs.openFiles.length =
            true := by
          rw [FileSystem.isOpenDirectory, List.getElem?_concat_length]
        simp [load, Call.apply_bind, hopen, lengthOf, hdirectory, findLast, fail, dirLength,
          Cookie.size] at h
    · simp [load, openFile, Call.apply_bind, Call.apply_demand, hfind, hallows] at h

/-! ## A container beside an empty directory -/

/-- A file system that holds one container, and a directory that is empty. -/
def packedFiles (entries : List PackedEntry) : FileSystem :=
  ⟨[(["c"], .file 0), (["out"], .directory Mode.directory)],
    [⟨Mode.file, (Packing.withDefaultRuntime entries).bytes⟩], [], [], 0, []⟩

/-- What has been opened can be tested. -/
instance (path : Path) (fs : FileSystem) (test : Archive → FileSystem → Prop)
    [∀ a files, Decidable (test a files)] :
    Decidable (∃ a files, (load path).apply fs = (.ok a, files) ∧ test a files) :=
  decidable_of_iff (((load path).apply fs).1.toOption.any
    (fun a => test a ((load path).apply fs).2) = true) (by
    rcases (load path).apply fs with ⟨e | a, files⟩
    · simp [Except.toOption]
    · simp [Except.toOption, and_assoc])

/-- The container can be opened, and what has been opened passes a test. -/
def OpensTo (entries : List PackedEntry) (test : Archive → FileSystem → Prop) : Prop :=
  ∃ a files, (load ⟨"/c"⟩).apply (packedFiles entries) = (.ok a, files) ∧ test a files

instance (entries : List PackedEntry) (test : Archive → FileSystem → Prop)
    [∀ a files, Decidable (test a files)] : Decidable (OpensTo entries test) :=
  inferInstanceAs (Decidable (∃ a files, _ ∧ test a files))

end Archive
end Stowage
