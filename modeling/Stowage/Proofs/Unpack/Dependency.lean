import Stowage.Proofs.Unpack.Containment

/-!
# Resolving dependencies keeps to the directory

`Resolver.resolve` reaches its place in one of two ways: it copies a member of an
unpacked sibling, with the same checks as for an entry of an archive, or it unpacks an
entry of a container, which it may have to open first.  Either way it touches only what
it may (`resolve_ensures`).
-/

namespace Stowage

open FileSystem Result Call

namespace Pooled

variable {ε ε' α β : Type} {pool : Pool} {fs : FileSystem}

theorem apply_bind (w : Pooled ε α) (f : α → Pooled ε β) (pool : Pool) (fs : FileSystem) :
    (w >>= f).apply pool fs = match w.apply pool fs with
      | ((.ok a, pool'), fs') => (f a).apply pool' fs'
      | ((.error e, pool'), fs') => ((.error e, pool'), fs') := by
  show _ = match w pool fs with
    | ((.ok a, pool'), fs') => f a pool' fs'
    | ((.error e, pool'), fs') => ((.error e, pool'), fs')
  unfold apply
  show ((ExceptT.bindCont f (w pool fs).1.1) (w pool fs).1.2) (w pool fs).2 = _
  rcases w pool fs with ⟨⟨r, pool'⟩, fs'⟩
  cases r <;> rfl

/-- Carried out with a pool, some work has a result and leaves a file system that fulfil
`Q`. -/
def Ensures (w : Pooled ε α) (pool : Pool) (fs : FileSystem)
    (Q : Except ε α → FileSystem → Prop) : Prop :=
  Q (w.apply pool fs).1.1 (w.apply pool fs).2

variable {Q : Except ε β → FileSystem → Prop} {R : Except ε α → FileSystem → Prop}

theorem Ensures.bind {w : Pooled ε α} {f : α → Pooled ε β} (hw : w.Ensures pool fs R)
    (hok : ∀ a pool' fs', R (.ok a) fs' → (f a).Ensures pool' fs' Q)
    (herror : ∀ e fs', R (.error e) fs' → Q (.error e) fs') : (w >>= f).Ensures pool fs Q := by
  unfold Ensures at hw ⊢
  rw [apply_bind]
  rcases hr : w.apply pool fs with ⟨⟨r, pool'⟩, fs'⟩
  rw [hr] at hw
  cases r with
  | ok a => exact hok a pool' fs' hw
  | error e => exact herror e fs' hw

theorem Ensures.onFiles {c : Call ε α} {f : ε → ε'} {Q : Except ε' α → FileSystem → Prop}
    (hc : c.Ensures fs R) (h : ∀ r fs', R r fs' → Q (r.mapError f) fs') :
    (Pooled.onFiles f c).Ensures pool fs Q := h _ _ hc

end Pooled

namespace Archive

theorem onlyReads_findLast (pattern : Bytes) (file : Handle) (length : Nat) :
    (findLast pattern file length).OnlyReads := by
  intro I hI
  refine .bind (.ask _) fun isDirectory => ?_
  split
  · exact .bind (.throw _) fun _ => .askResult _
  · exact .askResult _

theorem isQuiet_findLast (pattern : Bytes) (file : Handle) (length : Nat) :
    (findLast pattern file length).IsQuiet := (onlyReads_findLast pattern file length).isQuiet

theorem onlyReads_loadAt (path : Path) (file : Handle) (length position : Nat) :
    (loadAt path file length position).OnlyReads := by
  intro I hI
  have haccept {α : Type} (result : Except ArchiveFault α) : (accept result).Keeps I :=
    .askResult _
  have hrefuse (fault : ArchiveFault) : (refuse fault : Call ArchiveError Unit).Keeps I :=
    .throw _
  rw [loadAt]
  split
  all_goals
    first
    | refine .bind (hrefuse _) fun _ => ?_
    | skip
    exact .bind (onlyReads_seek _ _ I hI) fun _ =>
      .bind ((onlyReads_readExact _ _ I hI).withError _) fun _ => .bind (haccept _) fun _ =>
      .bind (haccept _) fun _ => .bind (onlyReads_seek _ _ I hI) fun _ =>
      .bind ((onlyReads_readExact _ _ I hI).withError _) fun _ => .bind (haccept _) fun _ =>
      .pure _

/-- **Opening a container** only reads. -/
theorem onlyReads_load (path : Path) : (load path).OnlyReads := by
  intro I hI
  have hscan (file : Handle) (length : Nat) :
      ((findLast Cookie.magic file length).withError ArchiveError.ofFile).Keeps I :=
    (onlyReads_findLast _ _ _ I hI).withError _
  refine .bind ((onlyReads_openFile path I hI).withError _) fun file =>
    .bind (onlyReads_lengthOf file I hI) fun length => ?_
  dsimp only
  split
  · refine .bind (.throw _) fun _ => .bind (hscan _ _) fun found => ?_
    cases found with
    | none => exact .throw _
    | some position => exact onlyReads_loadAt path file length position I hI
  · refine .bind (hscan _ _) fun found => ?_
    cases found with
    | none => exact .throw _
    | some position => exact onlyReads_loadAt path file length position I hI

/-- So it changes nothing but what is open. -/
theorem isQuiet_load (path : Path) : (load path).IsQuiet := (onlyReads_load path).isQuiet

end Archive

namespace Resolver

variable {fs : FileSystem} {dir : Path}

/-- **Copying a member** of an unpacked sibling touches only what it may. -/
theorem copyMember_ensures (hwf : fs.WellFormed) (r : Resolver) (source : Path) (member : String)
    (dir : Path) :
    (r.copyMember source member dir).Ensures fs fun _ fs' => fs.KeepsTo dir fs' := by
  unfold copyMember
  cases hplace : dir.containedJoin member with
  | none => exact Call.ensures_throw ⟨hwf, .refl fs⟩
  | some x =>
    refine ensures_below hwf LaunchError.io fun fs₁ root hwf₁ hdir => ?_
    obtain ⟨p, last, hx⟩ := isPlace_of_containedJoin hdir.ne_empty hplace
    have hparent : (prepareParent root.path x member).Ensures fs₁ fun r fs' =>
        fs'.WellFormed ∧ ChangedIn root fs₁ fs' ∧ (r = .ok () → fs'.Confined root p) := by
      rw [prepareParent, hx.parent]
      exact Archive.parentMade_ensures hx hwf₁ hdir LaunchError.io
        (.archive (.plain (.unsafeName member)))
    refine hparent.bind ?_ fun e fs₂ h₂ => ⟨h₂.1, h₂.2.1⟩
    intro _ fs₂ h₂
    obtain ⟨hwf₂, hch₂, hc₂⟩ := h₂
    have hclear : (r.clearTarget x).Ensures fs₂ fun r fs' =>
        fs'.WellFormed ∧ ChangedIn root fs₂ fs' ∧ (r = .ok () → fs'.Ready root p x) := by
      rw [clearTarget]
      exact Archive.cleared_ensures hx hwf₂ (hc₂ rfl) r.policy.strict LaunchError.io
        (.archive (.plain (.wouldOverwrite x)))
    refine hclear.bind ?_ fun e fs₃ h₃ => ⟨h₃.1, hch₂.trans h₃.2.1⟩
    intro _ fs₃ h₃
    obtain ⟨-, hch₃, hr₃⟩ := h₃
    have hcopy := (hx.copyFile (hr₃ rfl) source).relabel LaunchError.io
    refine hcopy.bind ?_ fun e fs₄ h₄ => ⟨h₄.1, (hch₂.trans hch₃).trans h₄.2⟩
    intro _ fs₄ h₄
    obtain ⟨hwf₄, hch₄⟩ := h₄
    exact Call.ensures_pure ⟨hwf₄, (hch₂.trans hch₃).trans hch₄⟩

theorem unpackMember_ensures [Zlib.Inflater] (hwf : fs.WellFormed) (r : Resolver)
    (reference : Reference) (dir : Path) (a : Archive) :
    (r.unpackMember reference dir a).Ensures fs fun _ fs' => fs.KeepsTo dir fs' := by
  rw [unpackMember]
  split
  · exact (a.unpack_ensures hwf _ dir r.policy).relabel _
  · exact Call.ensures_throw ⟨hwf, .refl fs⟩

/-- **Using a container**, which may have to be opened first, does what its use does, for
opening it keeps what reading keeps. -/
theorem withArchive_ensures {use : Archive → Call LaunchError Path} {I : FileSystem → Prop}
    {Q : Except LaunchError Path → FileSystem → Prop} (hI : IgnoresReading I)
    (pool : Pool) (path : Path) (hfs : I fs) (herror : ∀ e fs', I fs' → Q (.error e) fs')
    (huse : ∀ fs' a, I fs' → (use a).Ensures fs' Q) :
    (Pooled.withArchive path use).Ensures pool fs Q := by
  have hid {c : Call LaunchError Path} {pool' : Pool} {fs' : FileSystem} (hc : c.Ensures fs' Q) :
      (Pooled.onFiles id c).Ensures pool' fs' Q :=
    Pooled.Ensures.onFiles hc fun r fs'' h => by
      cases r with
      | ok x => exact h
      | error e => exact h
  have hget : (get : Pooled LaunchError Pool).Ensures pool fs fun _ fs' => fs' = fs := rfl
  refine hget.bind (fun pool' pool₁ fs₁ h₁ => ?_) fun e fs₁ h₁ => h₁ ▸ herror e fs hfs
  obtain rfl : fs = fs₁ := h₁.symm
  split
  · rename_i a _
    exact hid (huse fs a hfs)
  · have hload : (Pooled.onFiles LaunchError.archive (Archive.load path)).Ensures pool₁ fs
        fun _ fs' => I fs' := Archive.onlyReads_load path I hI fs hfs
    refine hload.bind (fun a pool₂ fs₂ hfs₂ => ?_) fun e fs₂ hfs₂ => herror e fs₂ hfs₂
    have hadd : (modify (·.add a) : Pooled LaunchError Unit).Ensures pool₂ fs₂
      fun _ fs' => fs' = fs₂ := rfl
    refine hadd.bind (fun _ pool₃ fs₃ h₃ => ?_) fun e fs₃ h₃ => h₃ ▸ herror e fs₂ hfs₂
    exact hid (huse fs₃ a (h₃ ▸ hfs₂))

/-- What looking for an unpacked sibling comes to: copying its member, or nothing. -/
def Copies (Q : Except LaunchError Path → FileSystem → Prop) (fs : FileSystem) :
    Except LaunchError (Option Path) → FileSystem → Prop
  | .ok none, fs' => fs' = fs
  | .ok (some x), fs' => Q (.ok x) fs'
  | .error e, fs' => Q (.error e) fs'

theorem ensures_copyUnpacked {Q : Except LaunchError Path → FileSystem → Prop} (r : Resolver)
    (reference : Reference) (dir : Path)
    (hcopy : ∀ source, (r.copyMember source reference.member dir).Ensures fs Q) :
    (r.copyUnpacked reference dir).Ensures fs (Copies Q fs) := by
  have hnothing : (pure none : Call LaunchError (Option Path)).Ensures fs (Copies Q fs) := rfl
  unfold copyUnpacked
  split
  · exact hnothing
  · refine Call.Ensures.ask ?_
    split
    · rename_i relative _ _
      have hmember := hcopy (r.programDir.join relative)
      unfold Call.Ensures at hmember ⊢
      rw [apply_map]
      cases hr : ((r.copyMember _ _ dir).apply fs).1 with
      | ok path => rwa [hr] at hmember
      | error e => rwa [hr] at hmember
    · exact hnothing

variable [Zlib.Inflater]

/-- **What resolving a reference does**: it copies a member of an unpacked sibling, or it
unpacks an entry of a container.  Before that it only reads. -/
theorem ensures_resolve {I : FileSystem → Prop} {Q : Except LaunchError Path → FileSystem → Prop}
    (hI : IgnoresReading I) (r : Resolver) (text : String) (dir : Path) (pool : Pool)
    (hfs : I fs) (herror : ∀ e fs', I fs' → Q (.error e) fs')
    (hcopy : ∀ reference source, Reference.parse text = .ok reference →
      (r.copyMember source reference.member dir).Ensures fs Q)
    (hunpack : ∀ reference fs' a, Reference.parse text = .ok reference → I fs' →
      (r.unpackMember reference dir a).Ensures fs' Q) :
    (r.resolve text dir).Ensures pool fs Q := by
  refine Pooled.Ensures.bind (R := fun result fs' => fs' = fs ∧
    result = (Reference.parse text).mapError id) ⟨rfl, rfl⟩ ?_ fun e fs' h => h.1 ▸ herror e fs hfs
  rintro reference pool₁ fs₁ ⟨h₁, hparse⟩
  obtain rfl : fs = fs₁ := h₁.symm
  have hparse := mapError_eq_ok.mp hparse.symm
  have hcopied :
      (Pooled.onFiles id (r.copyUnpacked reference dir)).Ensures pool₁ fs (Copies Q fs) :=
    Pooled.Ensures.onFiles
      (ensures_copyUnpacked r reference dir fun source => hcopy reference source hparse)
      fun result fs' h => by
        cases result with
        | ok x => exact h
        | error e => exact h
  refine hcopied.bind ?_ fun e fs' h => h
  rintro (- | path) pool₂ fs₂ h₂
  · refine Pooled.Ensures.bind (R := fun _ fs' => fs' = fs) h₂ ?_
      fun e fs' h => h ▸ herror e fs hfs
    rintro (- | sibling) pool₃ fs₃ h₃
    · exact h₃ ▸ herror _ fs hfs
    · obtain rfl : fs = fs₃ := h₃.symm
      exact withArchive_ensures hI pool₃ sibling hfs herror fun fs' a h =>
        hunpack reference fs' a hparse h
  · exact h₂

/-- **Resolving a reference** touches only what it may. -/
theorem resolve_ensures (hwf : fs.WellFormed) (r : Resolver) (text : String) (dir : Path)
    (pool : Pool) :
    (r.resolve text dir).Ensures pool fs fun _ fs' => fs.KeepsTo dir fs' := by
  refine ensures_resolve (ignoresReading_quiet fs) r text dir pool ⟨fs.openFiles, rfl⟩
    (fun _ fs' hq => ⟨hq.wellFormed hwf, hq.changedOnly⟩) (fun reference source _ => ?_)
    fun reference fs' a _ hq => ?_
  · exact copyMember_ensures hwf r source reference.member dir
  · exact (unpackMember_ensures (hq.wellFormed hwf) r reference dir a).mono
      fun _ _ h => KeepsTo.of_quiet hq h

end Resolver

end Stowage
