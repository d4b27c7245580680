import Stowage.Launch.Locate
import Stowage.Proofs.Container.Reading
import Stowage.Proofs.Unpack.Dependency

/-!
# Which container a program runs from

A program that carries a container of its own, be it damaged, runs from that one or not at
all.  A program without one may run from the container beside it if it carries the mark that
allows this.  So nobody can put a container beside a program and have it run: without the
mark, what stands there is not even looked at (`openArchive_unmarked`).

`openArchive_gated` says this of any two file systems with the same program.
-/

namespace Stowage

open FileSystem Result Call

variable {fs fs' : FileSystem} {executable path : Path} {content : Bytes} {a : Archive}
  {file : Handle}

/-! ## Faults of opening -/

namespace Archive

/-- A content that is searched for a container: it is long enough, and there is a magic in it. -/
def HasCookie (content : Bytes) : Prop :=
  Cookie.size ≤ content.length ∧ ∃ i, Scan.Occurs Cookie.magic content i

/-- A content without a cookie holds no container. -/
theorem ofContent_of_no_cookie (h : ¬HasCookie content) :
    ofContent path file content = .error (.noCookie path) := by
  have hplan : plan path content = .error (.noCookie path) := by
    rw [plan]
    by_cases hshort : content.length < Cookie.size
    · rw [if_pos hshort]
    · have hnone : Scan.lastIn Cookie.magic content = none :=
        (Scan.lastIn_eq_none_iff (by decide)).mpr fun i hi =>
          h ⟨Nat.le_of_not_lt hshort, i, hi⟩
      rw [if_neg hshort, hnone]
  rw [ofContent, hplan]
  rfl

/-- A fault of a container that is there. -/
def IsDamage (fault : ArchiveFault) : Prop := ∀ path, fault ≠ .noCookie path

theorem isDamage_of_parse {block : Bytes} {fault : ArchiveFault}
    (h : Cookie.parse block = .error fault) : IsDamage fault := by
  rw [Cookie.parse] at h
  split at h
  · cases h
    intro path hpath
    cases hpath
  · split at h
    · cases h
      intro path hpath
      cases hpath
    · cases h

theorem isDamage_of_layOut {position : Nat} {cookie : Cookie} {fault : ArchiveFault}
    (h : layOut position cookie = .error fault) : IsDamage fault := by
  rw [layOut] at h
  dsimp only at h
  split at h
  · cases h
    intro path hpath
    cases hpath
  · split at h
    · cases h
      intro path hpath
      cases hpath
    · cases h

theorem isDamage_of_checkTable {table : Bytes} {fault : ArchiveFault}
    (h : checkTable table = .error fault) : IsDamage fault := by
  obtain ⟨what, -, rfl⟩ := mapError_eq_error.mp h
  intro path hpath
  cases hpath

/-- **What is wrong with a content that has a cookie** is not that there is none. -/
theorem isDamage_of_ofContent (h : HasCookie content) {fault : ArchiveFault}
    (hfault : ofContent path file content = .error fault) : IsDamage fault := by
  have hplan {fault : ArchiveFault} (hfault : plan path content = .error fault) :
      IsDamage fault := by
    rw [plan, if_neg (Nat.not_lt.mpr h.1)] at hfault
    cases hlast : Scan.lastIn Cookie.magic content with
    | none =>
      obtain ⟨i, hi⟩ := h.2
      exact absurd hi ((Scan.lastIn_eq_none_iff (by decide)).mp hlast i)
    | some position =>
      rw [hlast] at hfault
      dsimp only at hfault
      split at hfault
      · cases hfault
        intro path hpath
        cases hpath
      · obtain hparse | ⟨cookie, -, hfault⟩ := bind_eq_error.mp hfault
        · exact isDamage_of_parse hparse
        · obtain hlayout | ⟨places, -, hfault⟩ := bind_eq_error.mp hfault
          · exact isDamage_of_layOut hlayout
          · cases hfault
  obtain hfault | ⟨places, -, hfault⟩ := bind_eq_error.mp hfault
  · exact hplan hfault
  · obtain hcheck | ⟨needed, -, hfault⟩ := bind_eq_error.mp hfault
    · exact isDamage_of_checkTable hcheck
    · cases hfault

end Archive

/-! ## The gate -/

namespace Locate

open Archive (HasCookie)

/-- A content with the mark that allows a container beside the program. -/
def IsMarked (content : Bytes) : Prop := ∃ i, Scan.Occurs Cookie.sideLoadMarker content i

theorem isSome_lastIn_iff :
    (Scan.lastIn Cookie.sideLoadMarker content).isSome = true ↔ IsMarked content := by
  cases hlast : Scan.lastIn Cookie.sideLoadMarker content with
  | none =>
    have hno := (Scan.lastIn_eq_none_iff (by decide)).mp hlast
    refine ⟨fun h => (by cases h), ?_⟩
    rintro ⟨i, hi⟩
    exact absurd hi (hno i)
  | some i =>
    have hi := (Scan.lastIn_eq_some_iff (by decide)).mp hlast
    exact ⟨fun _ => ⟨i, hi.occurs⟩, fun _ => rfl⟩

/-- A program may use the container beside it if it is marked. -/
theorem allowsSideLoad_apply (h : fs.content executable = .ok content) :
    ∃ fs', (allowsSideLoad executable).apply fs =
        (.ok (Scan.lastIn Cookie.sideLoadMarker content).isSome, fs') ∧ Quiet fs fs' := by
  obtain ⟨fs', hopen, hserves⟩ := openFile_apply h
  refine ⟨fs', ?_, ?_⟩
  · simp only [allowsSideLoad, apply_bind, apply_withError, hopen, mapError_ok, hserves.lengthOf,
      Archive.apply_findLast hserves,
      Scan.lastOccurrence_eq_lastIn (show Cookie.sideLoadMarker ≠ [] by decide)
        (show Cookie.sideLoadMarker.length ≤ Scan.windowSize by decide), apply_pure]
  · have hquiet := (isQuiet_openFile executable).apply fs
    rwa [hopen] at hquiet

/-- **A program with a container of its own** runs from that or not at all. -/
theorem openArchive_embedded (h : fs.content executable = .ok content)
    (hcookie : HasCookie content) : (openArchive executable).apply fs =
      ((Archive.load executable).withError LaunchError.archive).apply fs := by
  obtain ⟨fs', position, happly, -⟩ := Archive.load_apply h
  rw [openArchive, apply_bind, apply_outcome, apply_withError, happly]
  cases hopened : Archive.ofContent executable fs.openFiles.length content with
  | ok a => rfl
  | error fault =>
    have hdamage := Archive.isDamage_of_ofContent hcookie hopened
    cases fault with
    | noCookie path => exact absurd rfl (hdamage path)
    | _ => rfl

/-- **A program without one** runs from the container beside it, if there is one and the
program is marked. -/
theorem openArchive_bare (h : fs.content executable = .ok content)
    (hbare : ¬HasCookie content) : ∃ fs', Quiet fs fs' ∧ ((openArchive executable).apply fs).1 =
      if fs.isFile (sideLoadPath executable) = false then
        .error (.archiveMissing executable (.plain (.noCookie executable)))
      else if (Scan.lastIn Cookie.sideLoadMarker content).isSome = false then
        .error (.sideLoadRefused (sideLoadPath executable))
      else ((Archive.load (sideLoadPath executable)).apply fs').1.mapError .archive := by
  obtain ⟨fs₁, position, hload, -⟩ := Archive.load_apply h
  rw [Archive.ofContent_of_no_cookie hbare, mapError_error] at hload
  have hquiet₁ := (Archive.isQuiet_load executable).apply fs
  rw [hload] at hquiet₁
  -- the program is opened once more, to look for the mark
  have hcontent₁ := (hquiet₁.content_eq executable).trans h
  obtain ⟨fs₂, hallows, hquiet₂⟩ := allowsSideLoad_apply hcontent₁
  refine ⟨fs₂, ?_, ?_⟩
  · obtain ⟨files, rfl⟩ := hquiet₁
    obtain ⟨files', rfl⟩ := hquiet₂
    exact ⟨files', rfl⟩
  · simp only [openArchive, apply_bind, apply_outcome, hload, ArchiveError.plain, apply_ask,
      hquiet₁.isFile_eq]
    cases fs.isFile (sideLoadPath executable) with
    | false => rfl
    | true =>
      simp only [Bool.not_true, Bool.false_eq_true, if_false, apply_bind, hallows]
      cases (Scan.lastIn Cookie.sideLoadMarker content).isSome <;> rfl

/-- **A program without the mark** fails, and what it says depends on nothing but whether there
is a file beside it. -/
theorem openArchive_unmarked (h : fs.content executable = .ok content)
    (hbare : ¬HasCookie content) (hmark : ¬IsMarked content) :
    ((openArchive executable).apply fs).1 = .error
      (if fs.isFile (sideLoadPath executable) then .sideLoadRefused (sideLoadPath executable)
        else .archiveMissing executable (.plain (.noCookie executable))) := by
  obtain ⟨fs', -, hresult⟩ := openArchive_bare h hbare
  have hnone : (Scan.lastIn Cookie.sideLoadMarker content).isSome = false := by
    rw [Bool.eq_false_iff]
    exact fun hsome => hmark (isSome_lastIn_iff.mp hsome)
  rw [hresult, hnone]
  cases fs.isFile (sideLoadPath executable) <;> rfl

/-- The archive in the file at a path. -/
def ReadFrom (fs : FileSystem) (path : Path) (a : Archive) : Prop :=
  ∃ content file, fs.content path = .ok content ∧ Archive.ofContent path file content = .ok a

theorem readFrom_of_load (h : ((Archive.load path).apply fs).1 = .ok a) : ReadFrom fs path a := by
  obtain ⟨content, hcontent⟩ := Archive.content_of_load h
  obtain ⟨fs', position, happly, -⟩ := Archive.load_apply hcontent
  rw [happly] at h
  exact ⟨content, fs.openFiles.length, hcontent, mapError_eq_ok.mp h⟩

/-- **What is opened** was read from the program, or from the file beside a marked program. -/
theorem readFrom_of_openArchive (h : fs.content executable = .ok content)
    (hopen : ((openArchive executable).apply fs).1 = .ok a) :
    (HasCookie content ∧ ReadFrom fs executable a) ∨
      (¬HasCookie content ∧ IsMarked content ∧ ReadFrom fs (sideLoadPath executable) a) := by
  by_cases hcookie : HasCookie content
  · rw [openArchive_embedded h hcookie] at hopen
    exact .inl ⟨hcookie, readFrom_of_load (mapError_eq_ok.mp hopen)⟩
  · obtain ⟨fs', hquiet, hresult⟩ := openArchive_bare h hcookie
    rw [hresult] at hopen
    split at hopen
    · cases hopen
    split at hopen
    · cases hopen
    rename_i hmark
    refine .inr ⟨hcookie, isSome_lastIn_iff.mp (Bool.not_eq_false _ ▸ hmark), ?_⟩
    obtain ⟨beside, file, hbeside, hread⟩ := readFrom_of_load (mapError_eq_ok.mp hopen)
    exact ⟨beside, file, (hquiet.content_eq _).symm.trans hbeside, hread⟩

/-- **What stands beside a program is used only with the leave of the program.**  If there is a
cookie in the program, opening is opening the program itself, whatever stands beside it.  If
there is none and no mark either, opening fails, and whether a file stands beside the program
is all that matters of it.  An archive that is read from there belongs to a marked program. -/
theorem openArchive_gated (h : fs.content executable = .ok content) :
    (HasCookie content →
      (openArchive executable).apply fs =
          ((Archive.load executable).withError LaunchError.archive).apply fs ∧
        ∀ fs' : FileSystem, fs'.content executable = .ok content →
          fs'.openFiles.length = fs.openFiles.length →
          ((openArchive executable).apply fs').1 = ((openArchive executable).apply fs).1) ∧
    (¬HasCookie content → ¬IsMarked content →
      (∃ e, ((openArchive executable).apply fs).1 = .error e) ∧
        ∀ fs' : FileSystem, fs'.content executable = .ok content →
          fs'.isFile (sideLoadPath executable) = fs.isFile (sideLoadPath executable) →
          ((openArchive executable).apply fs').1 = ((openArchive executable).apply fs).1) ∧
    ∀ a, ((openArchive executable).apply fs).1 = .ok a →
      (HasCookie content ∧ ReadFrom fs executable a) ∨
        (¬HasCookie content ∧ IsMarked content ∧ ReadFrom fs (sideLoadPath executable) a) := by
  refine ⟨fun hcookie => ⟨openArchive_embedded h hcookie, fun fs' h' hfiles => ?_⟩,
    fun hbare hmark => ⟨⟨_, openArchive_unmarked h hbare hmark⟩, fun fs' h' hfile => ?_⟩,
    fun a => readFrom_of_openArchive h⟩
  · rw [openArchive_embedded h hcookie, openArchive_embedded h' hcookie, apply_withError,
      apply_withError]
    obtain ⟨fs₁, position, happly, -⟩ := Archive.load_apply h
    obtain ⟨fs₁', position', happly', -⟩ := Archive.load_apply h'
    rw [happly, happly', hfiles]
  · rw [openArchive_unmarked h hbare hmark, openArchive_unmarked h' hbare hmark, hfile]

/-- A program that is not marked, `/a`, and a file beside it. -/
def planted (beside : Bytes) : FileSystem where
  nodes := [(["a"], .file 0), (["a.pkg"], .file 1)]
  inodes := [⟨Mode.file, [0]⟩, ⟨Mode.file, beside⟩]
  openFiles := []
  workingDir := []
  serial := 0
  journal := []

/-- A container that could be put there. -/
def bait : Bytes := Cookie.encode ⟨88, 0, 0, 311, "lib.so"⟩

/-- The general statement for a program that is not marked: with a container beside it, it fails
as it does with an empty file there. -/
theorem openArchive_gated_planted :
    (planted bait).content ⟨"/a"⟩ = .ok [0] ∧ (planted []).content ⟨"/a"⟩ = .ok [0] ∧
    ¬HasCookie [0] ∧ ¬IsMarked [0] ∧
    (∃ e, ((openArchive ⟨"/a"⟩).apply (planted bait)).1 = .error e) ∧
    ((openArchive ⟨"/a"⟩).apply (planted [])).1 =
      ((openArchive ⟨"/a"⟩).apply (planted bait)).1 := by
  have hbait : (planted bait).content ⟨"/a"⟩ = .ok [0] :=
    Result.toOption_eq_some.mp (by decide +kernel)
  have hempty : (planted []).content ⟨"/a"⟩ = .ok [0] :=
    Result.toOption_eq_some.mp (by decide +kernel)
  have hbare : ¬HasCookie [0] := fun h => by
    have : 88 ≤ 1 := h.1
    omega
  have hmark : ¬IsMarked [0] := by
    rw [← isSome_lastIn_iff]
    decide
  obtain ⟨-, hgate, -⟩ := openArchive_gated hbait
  obtain ⟨hfails, hsame⟩ := hgate hbare hmark
  exact ⟨hbait, hempty, hbare, hmark, hfails, hsame _ hempty (by decide +kernel)⟩

end Locate
end Stowage
