import Stowage.Proofs.Files.Blind
import Stowage.Proofs.Unpack.Resolving

/-!
# Containers that are opened twice

A container can be opened again and again.  Each time it is read from another open file, and
where that has been read before is nowhere looked at.  This module says that it makes no
difference which of the open files is used: an entry is unpacked to the same files, or fails in
the same way (`Archive.agrees_unpack`).

What is open stays what it was when it was opened (`Archive.IsLoaded`), and so it is what is found
by opening its path once more, as long as the file there has not been changed
(`Archive.load_again`).
-/

namespace Stowage

open FileSystem Result Call

variable {fs fs' fs₁ fs₁' : FileSystem} {dir x path : Path} {ε : Type} {a a' : Archive}
  {content : Bytes} {P : Location → Prop}

/-! ## Making a place ready -/

namespace FileSystem

/-- Checking a parent and making it does not depend on what is open. -/
theorem isBlind_parent (root p : Path) (f : FileError → ε) (e : ε) : Call.IsBlind (do
    if (← (askResult (·.resolveUnder root p)).withError f).isNone then
      (throw e : Call ε Unit)
    (makeDirAll p).withError f) := by
  have hask : (askResult (·.resolveUnder root p)).IsBlind :=
    .askResult fun fs files => resolveUnder_openFiles fs files root p
  exact .bind (hask.withError f) fun _ => .guard ((isBlind_makeDirAll p).withError f)

/-- Clearing a place does not depend on what is open. -/
theorem isBlind_clear (x : Path) (strict : Bool) (f : FileError → ε) (e : ε) : Call.IsBlind (do
    if ← ask (·.isPresent x) then
      if strict then (throw e : Call ε Unit)
      (removeFile x).withError f) := by
  refine .bind (.ask fun fs files => isPresent_openFiles fs files x) fun _ => ?_
  split
  · exact .guard ((isBlind_removeFile x).withError f)
  · exact .pure ()

/-- Makes a place in a directory ready, and gives the root below which it has to be. -/
def readying (dir : Path) (f : FileError → ε) (prepare : Path → Call ε Unit)
    (clear : Call ε Unit) : Call ε Path := do
  (makeDirAll dir).withError f
  let root ← (askResult (·.canonicalize dir)).withError f
  prepare root
  clear
  return root

/-- What is placed is placed once the place has been made ready. -/
theorem placing_eq (dir : Path) (f : FileError → ε) (prepare : Path → Call ε Unit)
    (clear : Call ε Unit) (rest : Path → Call ε Path) : (do
      (makeDirAll dir).withError f
      let root ← (askResult (·.canonicalize dir)).withError f
      prepare root
      clear
      rest root) = readying dir f prepare clear >>= rest := by
  simp only [readying, bind_assoc, pure_bind]

/-- **Once a place has been made ready** in both states, what follows decides. -/
theorem agrees_placing {name : String} (hwf : fs.WellFormed) (hq : Quiet fs fs')
    (hplace : dir.containedJoin name = some x) (strict : Bool) (f : FileError → ε) (e e' : ε)
    {prepare : Path → Call ε Unit} {clear : Call ε Unit} {rest rest' : Path → Call ε Path}
    (hblind : ∀ root, (prepare root).IsBlind)
    (hprepare : ∀ root p, x.parent? = some p → prepare root = do
      if (← (askResult (·.resolveUnder root p)).withError f).isNone then
        (throw e : Call ε Unit)
      (makeDirAll p).withError f)
    (hclear : clear = do
      if ← ask (·.isPresent x) then
        if strict then (throw e' : Call ε Unit)
        (removeFile x).withError f)
    (hrest : ∀ root fs₁ fs₁', Readied fs dir x strict fs₁ → Readied fs' dir x strict fs₁' →
      Quiet fs₁ fs₁' → Agrees (rest root) fs₁ (rest' root) fs₁') :
    Agrees (do
      (makeDirAll dir).withError f
      let root ← (askResult (·.canonicalize dir)).withError f
      prepare root
      clear
      rest root) fs (do
      (makeDirAll dir).withError f
      let root ← (askResult (·.canonicalize dir)).withError f
      prepare root
      clear
      rest' root) fs' := by
  have hready : (readying dir f prepare clear).IsBlind := by
    have hcanonical : (askResult (·.canonicalize dir)).IsBlind :=
      .askResult fun fs files => canonicalize_openFiles fs files dir
    refine .bind ((isBlind_makeDirAll dir).withError f) fun _ =>
      .bind (hcanonical.withError f) fun root => .bind (hblind root) fun _ => ?_
    rw [hclear]
    exact .bind (isBlind_clear x strict f e') fun _ => .pure root
  have hreadied {fs : FileSystem} (hwf : fs.WellFormed) :
      (readying dir f prepare clear).Ensures fs fun result fs₁ =>
        ∀ root, result = .ok root → Readied fs dir x strict fs₁ :=
    ensures_placing hwf hplace strict f e e' hprepare hclear (fun _ _ _ _ _ h => by cases h)
      fun fs₁ root h => ensures_pure fun _ _ => h
  rw [placing_eq, placing_eq]
  refine (Agrees.of_isBlind hready hq).bind fun root fs₁ fs₁' h h' hq₁ => ?_
  have hthis := hreadied hwf
  have hthat := hreadied (hq.wellFormed hwf)
  unfold Call.Ensures at hthis hthat
  rw [h] at hthis
  rw [h'] at hthat
  exact hrest root fs₁ fs₁' (hthis root rfl) (hthat root rfl) hq₁

end FileSystem

/-! ## The same container, opened twice -/

namespace Archive

/-- **A container has been opened**, and what was found then is what its file still holds. -/
structure IsLoaded (a : Archive) (fs : FileSystem) : Prop where
  opened : fs.HasOpen a.file
  read : ofContent a.path a.file (fs.contentOf a.file) = .ok a

theorem IsLoaded.retained (h : a.IsLoaded fs) (hr : Retains P fs fs') : a.IsLoaded fs' where
  opened := h.opened.retained hr
  read := by
    rw [h.opened.contentOf hr]
    exact h.read

/-- What is found in a content does not depend on the number of the open file. -/
theorem ofContent_file (file file' : Handle) :
    ofContent path file' content =
      (ofContent path file content).map fun a => { a with file := file' } := by
  rw [ofContent, ofContent]
  cases plan path content with
  | error fault => rfl
  | ok places =>
    simp only [ok_bind]
    cases checkTable ((content.drop places.2.2).take places.1.contentsLength.toNat) <;> rfl

/-- What has been opened is loaded, and it is what the path has led to. -/
theorem isLoaded_of_load (h : (load path).apply fs = (.ok a, fs₁)) :
    a.IsLoaded fs₁ ∧ fs.content path = .ok (fs₁.contentOf a.file) := by
  have hpath := path_of_load h
  obtain ⟨content, hcontent⟩ := content_of_load (congrArg Prod.fst h)
  obtain ⟨fs₂, position, happly, hserves⟩ := load_apply hcontent
  rw [h] at happly
  obtain ⟨hresult, rfl⟩ := Prod.mk.inj happly
  have hread := mapError_eq_ok.mp hresult.symm
  have hfile : a.file = fs.openFiles.length := by
    obtain ⟨-, -, -, -, -, -, -, -, -, hfile, -⟩ := ofContent_eq_ok.mp hread
    exact hfile
  have hsame : fs₁.contentOf a.file = content := by
    rw [hfile]
    exact hserves.contentOf
  refine ⟨⟨hasOpen_of_load h, ?_⟩, by rw [hsame, hcontent]⟩
  rw [hsame, hpath, hfile]
  exact hread

/-- **Two archives are one container**, each with an open file of its own in a state of its own. -/
structure Twins (a : Archive) (fs : FileSystem) (a' : Archive) (fs' : FileSystem) : Prop where
  same : a' = { a with file := a'.file }
  opened : fs.HasOpen a.file
  opened' : fs'.HasOpen a'.file
  content : fs'.contentOf a'.file = fs.contentOf a.file

theorem IsLoaded.twins (h : a.IsLoaded fs) (h' : a'.IsLoaded fs') (hpath : a'.path = a.path)
    (hcontent : fs'.contentOf a'.file = fs.contentOf a.file) : Twins a fs a' fs' where
  same := by
    have hread := h'.read
    rw [hpath, hcontent, ofContent_file a.file, h.read] at hread
    exact (Except.ok.inj hread).symm
  opened := h.opened
  opened' := h'.opened
  content := hcontent

namespace Twins
variable {r : Record}

theorem retained {P' : Location → Prop} (h : Twins a fs a' fs') (hr : Retains P fs fs₁)
    (hr' : Retains P' fs' fs₁') : Twins a fs₁ a' fs₁' where
  same := h.same
  opened := h.opened.retained hr
  opened' := h.opened'.retained hr'
  content := by rw [h.opened.contentOf hr, h.opened'.contentOf hr', h.content]

variable (h : Twins a fs a' fs')
include h

theorem find?_eq (name : String) : a'.find? name = a.find? name := by
  rw [h.same]
  rfl

/-- **They decode to the same**, wherever their files have been read before. -/
theorem decoding_eq [Zlib.Inflater] (r : Record) : a'.decoding r fs' = a.decoding r fs := by
  rw [decoding, decoding, h.content, h.same]
  rfl

end Twins

/-! ## Unpacking -/

variable {r : Record} {policy : UnpackPolicy} {root : Path}

section

variable [Zlib.Inflater]

theorem agrees_stream (h : Twins a fs a' fs') (hq : Quiet fs fs') (r : Record) :
    Agrees (a.stream r : Call ε Decoding) fs (a'.stream r) fs' :=
  .of_isQuiet (isQuiet_stream a r) (isQuiet_stream a' r) hq (by
    rw [stream_result, stream_result, h.decoding_eq])

theorem agrees_payload (h : Twins a fs a' fs') (hq : Quiet fs fs') (r : Record) :
    Agrees (a.payload r) fs (a'.payload r) fs' :=
  .of_isQuiet (isQuiet_payload a r) (isQuiet_payload a' r) hq (by
    rw [payload_result, payload_result, h.decoding_eq])

/-- **A payload is written** to the same file, or is not. -/
theorem agrees_writeFile (h : Twins a fs a' fs') (hq : Quiet fs fs') (hx : x.IsTrim)
    (hwf : fs.WellFormed) (habsent : fs.Absent x) (habsent' : fs'.Absent x) (r : Record) :
    Agrees (a.writeFile r x) fs (a'.writeFile r x) fs' := by
  have hcreated {fs : FileSystem} (hwf : fs.WellFormed) (habsent : fs.Absent x) {n : Nat}
      {fs₁ : FileSystem} (hcreate : (createFile x Mode.file).plainly.apply fs = (.ok n, fs₁)) :
      RetainsAll fs fs₁ := by
    have hnew := createFile_newFile hx hwf habsent Mode.file
    unfold Call.Ensures at hnew
    rw [Call.plainly, apply_withError] at hcreate
    obtain ⟨hresult, rfl⟩ := Prod.mk.inj hcreate
    rw [mapError_eq_ok.mp hresult] at hnew
    obtain ⟨loc, hnew, -⟩ := hnew
    exact hnew.retains
  refine (Agrees.of_isBlind ((isBlind_createFile x Mode.file).withError _) hq).bind
    fun n fs₁ fs₁' hcreate hcreate' hq₁ => ?_
  have htwins := h.retained (hcreated hwf habsent hcreate)
    (hcreated (hq.wellFormed hwf) habsent' hcreate')
  refine (agrees_stream htwins hq₁ r).bind fun d fs₂ fs₂' _ _ hq₂ => .of_isBlind ?_ hq₂
  refine .bind (isBlind_append n d.output) fun _ => ?_
  split
  · exact .bind (isBlind_removeFile x).outcome fun _ => .throw _
  · exact (isBlind_setMode x _).withError _

/-- **A link is made** in the same way, or is not. -/
theorem agrees_writeLink (h : Twins a fs a' fs') (hq : Quiet fs fs') (r : Record)
    (root x : Path) : Agrees (a.writeLink r root x) fs (a'.writeLink r root x) fs' := by
  refine (agrees_payload h hq r).bind fun bytes fs₁ fs₁' _ _ hq₁ => .of_isBlind ?_ hq₁
  split
  · rename_i text _
    have hstays : (askResult (·.linkStaysUnder root x ⟨trimZeros text⟩)).IsBlind :=
      .askResult fun fs files => linkStaysUnder_openFiles fs files root x _
    refine .bind (hstays.withError _) fun stays => ?_
    split
    · exact (isBlind_makeLink _ x).withError _
    · exact .throw _
  · exact .throw _

/-- **Unpacking an entry** comes to the same, whichever open file it is read from. -/
theorem agrees_place (h : Twins a fs a' fs') (hq : Quiet fs fs') (hwf : fs.WellFormed)
    (r : Record) (dir : Path) (policy : UnpackPolicy) :
    Agrees (a.place r dir policy) fs (a'.place r dir policy) fs' := by
  cases hkind : r.kind.isFileLike with
  | false =>
    simp only [place, hkind, Bool.not_false, if_true]
    exact .bind_error rfl rfl hq
  | true =>
    cases hplace : dir.containedJoin r.name with
    | none =>
      simp only [place, hkind, hplace, Bool.not_true, Bool.false_eq_true, if_false]
      exact .of_isBlind (.throw _) hq
    | some x =>
      simp only [place, hkind, hplace, Bool.not_true, Bool.false_eq_true, if_false]
      refine agrees_placing hwf hq hplace policy.strict ArchiveError.ofFile
        (.plain (.unsafeName r.name)) (.plain (.wouldOverwrite x)) (fun root => ?_)
        (fun root p hp => ?_) rfl ?_
      · rw [prepareParent]
        split
        · exact .pure ()
        · exact isBlind_parent root _ ArchiveError.ofFile _
      · rw [prepareParent, hp]
        rfl
      · intro root fs₁ fs₁' hready hready' hq₁
        obtain ⟨gone, hretains⟩ := hready.retains
        obtain ⟨gone', hretains'⟩ := hready'.retains
        have htwins := h.retained hretains hretains'
        split
        · exact (agrees_writeLink htwins hq₁ r root x).bind fun _ _ _ _ _ hq₂ =>
            .of_isBlind (.pure x) hq₂
        · exact (agrees_writeFile htwins hq₁ hready.trim hready.wellFormed hready.absent
            hready'.absent r).bind fun _ _ _ _ _ hq₂ => .of_isBlind (.pure x) hq₂

theorem agrees_unpack (h : Twins a fs a' fs') (hq : Quiet fs fs') (hwf : fs.WellFormed)
    (r : Record) (dir : Path) (policy : UnpackPolicy) :
    Agrees (a.unpack r dir policy) fs (a'.unpack r dir policy) fs' :=
  (agrees_place h hq hwf r dir policy).withError

/-! ## Opening once more -/

end

/-- **A container that is opened once more** is the one that has been opened before, as long as
its path leads to the same content. -/
theorem load_again (h : a.IsLoaded fs) (hq : Quiet fs fs')
    (hcurrent : fs.content a.path = .ok (fs.contentOf a.file)) :
    ∃ a' fs₁', (load a.path).apply fs' = (.ok a', fs₁') ∧ Quiet fs fs₁' ∧ Twins a fs a' fs₁' := by
  rw [← hq.content_eq] at hcurrent
  obtain ⟨fs₁', position, happly, hserves⟩ := load_apply hcurrent
  rw [ofContent_file a.file, h.read] at happly
  have hquiet := (isQuiet_load a.path).apply fs'
  rw [happly] at hquiet
  obtain ⟨hloaded, hread⟩ := isLoaded_of_load happly
  rw [hcurrent] at hread
  exact ⟨_, fs₁', happly, hq.trans hquiet, h.twins hloaded rfl (Except.ok.inj hread).symm⟩

/-- A file that cannot be read cannot be opened. -/
theorem load_of_unreadable (hfile : fs.isFile path = true) {e : FileError}
    (h : fs.content path = .error e) : (load path).apply fs =
      (.error (.plain (.cannotOpen path (.os .notPermitted))), fs) := by
  obtain ⟨loc, n, hfind, hnode⟩ := isFile_iff.mp hfile
  have hallows : fs.allows loc .read = false := by
    rw [← Bool.not_eq_true]
    intro hallows
    rw [content_eq_ok.mpr ⟨loc, n, hfind, hallows, hnode, rfl⟩] at h
    cases h
  have hopen : (openFile path).apply fs = (.error (.os .notPermitted), fs) := by
    simp only [openFile, apply_bind, apply_askResult, hfind, apply_demand, hallows,
      Bool.false_eq_true, if_false]
  simp only [load, apply_bind, apply_withError, hopen, mapError_error]

/-- **Opening a file twice**: it is no container both times, or both archives are one. -/
theorem load_twice (hq : Quiet fs fs') (hfile : fs.isFile path = true) :
    (∃ e fs₁ fs₁', (load path).apply fs = (.error e, fs₁) ∧
      (load path).apply fs' = (.error e, fs₁') ∧ Quiet fs₁ fs₁') ∨
    ∃ a a' fs₁ fs₁', (load path).apply fs = (.ok a, fs₁) ∧ (load path).apply fs' = (.ok a', fs₁') ∧
      Quiet fs₁ fs₁' ∧ Twins a fs₁ a' fs₁' := by
  have hquiet := (isQuiet_load path).apply
  cases hcontent : fs.content path with
  | error e =>
    refine .inl ⟨_, fs, fs', load_of_unreadable hfile hcontent,
      load_of_unreadable (hq.isFile_eq path ▸ hfile) ((hq.content_eq path).trans hcontent), hq⟩
  | ok content =>
    obtain ⟨fs₁, _, happly, -⟩ := load_apply hcontent
    obtain ⟨fs₁', _, happly', -⟩ := load_apply ((hq.content_eq path).trans hcontent)
    have hq₁ : Quiet fs₁ fs₁' := by
      have hthis := hquiet fs
      have hthat := hquiet fs'
      rw [happly] at hthis
      rw [happly'] at hthat
      exact hthis.symm.trans (hq.trans hthat)
    rw [ofContent_file fs.openFiles.length] at happly'
    cases hread : ofContent path fs.openFiles.length content with
    | error fault =>
      rw [hread] at happly happly'
      exact .inl ⟨_, fs₁, fs₁', happly, happly', hq₁⟩
    | ok a =>
      rw [hread] at happly happly'
      obtain ⟨hloaded, hthis⟩ := isLoaded_of_load happly
      obtain ⟨hloaded', hthat⟩ := isLoaded_of_load happly'
      rw [hq.content_eq, hthis] at hthat
      exact .inr ⟨a, _, fs₁, fs₁', happly, happly', hq₁,
        hloaded.twins hloaded' rfl (Except.ok.inj hthat).symm⟩

end Archive

/-! ## Copying a member -/

/-- **Copying a member** of an unpacked sibling comes to the same, whatever is open. -/
theorem Resolver.agrees_copyMember (hq : Quiet fs fs') (hwf : fs.WellFormed) (r : Resolver)
    (source : Path) (member : String) (dir : Path) :
    Agrees (r.copyMember source member dir) fs (r.copyMember source member dir) fs' := by
  unfold copyMember
  cases hplace : dir.containedJoin member with
  | none => exact .of_isBlind (.throw _) hq
  | some x =>
    refine agrees_placing hwf hq hplace r.policy.strict LaunchError.io
      (.archive (.plain (.unsafeName member))) (.archive (.plain (.wouldOverwrite x)))
      (fun root => ?_) (fun root p hp => ?_) rfl fun root fs₁ fs₁' _ _ hq₁ => ?_
    · rw [prepareParent]
      split
      · exact .pure ()
      · exact isBlind_parent root _ LaunchError.io _
    · rw [prepareParent, hp]
      rfl
    · exact (agrees_copyFile hq₁ source x).withError.bind fun _ _ _ _ _ hq₂ =>
        .of_isBlind (.pure x) hq₂

/-- **Unpacking a member** of a container comes to the same, whichever open file it is read
from. -/
theorem Resolver.agrees_unpackMember [Zlib.Inflater] (h : Archive.Twins a fs a' fs')
    (hq : Quiet fs fs') (hwf : fs.WellFormed) (r : Resolver) (reference : Reference) (dir : Path) :
    Agrees (r.unpackMember reference dir a) fs (r.unpackMember reference dir a') fs' := by
  rw [unpackMember, unpackMember, h.find?_eq]
  split
  · exact (Archive.agrees_unpack h hq hwf _ dir r.policy).withError
  · exact .of_isBlind (.throw _) hq

end Stowage
