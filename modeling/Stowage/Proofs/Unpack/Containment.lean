import Stowage.Proofs.Files.Place
import Stowage.Launch.Dependency

/-!
# Unpacking keeps to its directory

An entry of an archive is unpacked by `Archive.unpack`, and a member of an unpacked
sibling is copied by `Resolver.copyMember`.  Both make the directory that they are
given, check the parent of the place, make it, clear the place and write to it.  This
module puts the steps of `Stowage.Proofs.Files.Place` together along each of them.

`FileSystem.MayTouch` says where such a call may make, change or remove something:
below the canonical path of the directory, once this has been made, or, in making it,
at free names that become the directory or one of its ancestors.
-/

namespace Stowage

open FileSystem Result Call

namespace FileSystem

/-- **Where a call that unpacks below `dir` may touch something**: inside the canonical
directory, or where the directory and its ancestors were missing. -/
def MayTouch (fs : FileSystem) (dir : Path) (loc : Location) : Prop :=
  let made := ((makeDirAll dir).apply fs).2
  (∃ root, made.canonicalize dir = .ok (Location.path root) ∧
    (∃ node, made.node? root = some node) ∧ Location.Inside root loc) ∨
  fs.MadeFor dir made loc

variable {fs fs' : FileSystem} {dir : Path} {ε α : Type}

/-- A call that leaves a well-formed file system and has touched only what it may. -/
abbrev KeepsTo (fs : FileSystem) (dir : Path) (fs' : FileSystem) : Prop :=
  fs'.WellFormed ∧ ChangedOnly (fs.MayTouch dir) fs fs'

/-- What is open does not matter for what may be touched. -/
theorem MayTouch.of_quiet {loc : Location} (hq : Quiet fs fs') (h : fs'.MayTouch dir loc) :
    fs.MayTouch dir loc := by
  obtain ⟨files, rfl⟩ := hq
  rw [MayTouch, isBlind_makeDirAll dir fs files] at h
  simp only [canonicalize_openFiles, node?_openFiles] at h
  refine h.imp id fun ⟨hfree, hdir, q, hq, hfind⟩ => ⟨?_, ?_, q, hq, ?_⟩
  · rwa [node?_openFiles] at hfree
  · rwa [isDirectoryAt_openFiles] at hdir
  · rwa [find_openFiles] at hfind

theorem KeepsTo.of_quiet {fs'' : FileSystem} (hq : Quiet fs fs') (h : fs'.KeepsTo dir fs'') :
    fs.KeepsTo dir fs'' :=
  ⟨h.1, hq.changedOnly.trans (h.2.mono fun _ hloc => hloc.of_quiet hq)⟩

/-- **Making the directory first**: a call that then keeps to the canonical directory
touches only what it may. -/
theorem ensures_below (hwf : fs.WellFormed) (f : FileError → ε) {rest : Path → Call ε α}
    (hrest : ∀ fs₁ root, fs₁.WellFormed → fs₁.Canonical dir root →
      (rest root.path).Ensures fs₁ fun _ fs' => fs'.WellFormed ∧ ChangedIn root fs₁ fs') :
    Call.Ensures (do
      (makeDirAll dir).withError f
      let root ← (askResult (·.canonicalize dir)).withError f
      rest root) fs fun _ fs' => fs.KeepsTo dir fs' := by
  have hmade := makeDirAll_ensures hwf dir
  refine Ensures.bind (R := fun _ fs₁ => fs₁ = ((makeDirAll dir).apply fs).2) rfl ?_ ?_
  · rintro - fs₁ rfl
    obtain ⟨hwf₁, -, hch₁⟩ := hmade
    have hch₁ := hch₁.mono fun loc h => (Or.inr h : fs.MayTouch dir loc)
    refine Ensures.bind (R := fun r fs₂ => fs₂ = ((makeDirAll dir).apply fs).2 ∧
      r = ((((makeDirAll dir).apply fs).2).canonicalize dir).mapError f) ⟨rfl, rfl⟩ ?_ ?_
    · rintro q fs₂ ⟨rfl, hq⟩
      have hq := mapError_eq_ok.mp hq.symm
      obtain ⟨root, rfl, hroot⟩ := canonicalize_eq_ok.mp hq
      obtain ⟨node, hnode, -⟩ := hroot.holdsPlain hwf₁
      refine (hrest _ root hwf₁ hroot).mono fun r fs₃ ⟨hwf₃, hch₃⟩ => ⟨hwf₃, hch₁.trans ?_⟩
      exact hch₃.mono fun loc hloc => Or.inl ⟨root, hq, ⟨node, hnode⟩, hloc⟩
    · rintro e fs₂ ⟨rfl, -⟩
      exact ⟨hwf₁, hch₁⟩
  · rintro e fs₁ rfl
    exact ⟨hmade.1, hmade.2.2.mono fun loc h => Or.inr h⟩

end FileSystem

namespace Archive

variable {fs : FileSystem} {root : Location} {dir p x : Path} {last : String} {ε : Type}

section

variable [Zlib.Inflater]

theorem onlyReads_stream (a : Archive) (r : Record) :
    (a.stream r : Call ε Decoding).OnlyReads := by
  intro I hI
  rw [stream]
  split
  · exact .pure _
  · exact .bind (.ask _) fun d => .bind (onlyReads_seek _ _ I hI) fun _ => .pure d

theorem isQuiet_stream (a : Archive) (r : Record) : (a.stream r : Call ε Decoding).IsQuiet :=
  (onlyReads_stream a r).isQuiet

theorem onlyReads_payload (a : Archive) (r : Record) : (a.payload r).OnlyReads := by
  intro I hI
  refine .bind (onlyReads_stream a r I hI) fun d => ?_
  split
  · exact .pure _
  · exact .throw _

theorem isQuiet_payload (a : Archive) (r : Record) : (a.payload r).IsQuiet :=
  (onlyReads_payload a r).isQuiet

/-! ## The steps of unpacking -/

end

section Steps
variable (hx : IsPlace dir p x last)
include hx

/-- Checking the parent of a place and making it, with errors seen in some way. -/
theorem parentMade_ensures (hwf : fs.WellFormed) (hdir : fs.Canonical dir root)
    (f : FileError → ε) (e : ε) :
    Call.Ensures (do
      if (← (askResult (·.resolveUnder root.path p)).withError f).isNone then
        (throw e : Call ε Unit)
      (makeDirAll p).withError f) fs fun r fs' =>
      fs'.WellFormed ∧ ChangedIn root fs fs' ∧ (r = .ok () → fs'.Confined root p) := by
  refine Ensures.bind (R := fun r fs' => fs' = fs ∧ r = (fs.resolveUnder root.path p).mapError _)
    ⟨rfl, rfl⟩ ?_ ?_
  · rintro answer fs₁ ⟨rfl, hanswer⟩
    have hanswer := mapError_eq_ok.mp hanswer.symm
    split
    · exact ensures_throw ⟨hwf, .refl fs₁, fun h => by cases h⟩
    · cases answer with
      | none => rename_i hsome; exact absurd rfl hsome
      | some q =>
        exact (hx.makeParent hwf hdir hanswer).withError
          fun r fs' h => ⟨h.1, h.2.2, fun _ => h.2.1⟩
  · rintro e fs₁ ⟨rfl, -⟩
    exact ⟨hwf, .refl fs₁, fun h => by cases h⟩

/-- Clearing a place, with errors seen in some way. -/
theorem cleared_ensures (hwf : fs.WellFormed) (hc : fs.Confined root p) (strict : Bool)
    (f : FileError → ε) (e : ε) :
    Call.Ensures (do
      if ← ask (·.isPresent x) then
        if strict then (throw e : Call ε Unit)
        (removeFile x).withError f) fs fun r fs' =>
      fs'.WellFormed ∧ ChangedIn root fs fs' ∧ (r = .ok () → fs'.Ready root p x) := by
  refine Ensures.ask ?_
  split
  · split
    · exact ensures_throw ⟨hwf, .refl fs, fun h => by cases h⟩
    · exact (hx.clear hwf hc).withError fun r fs' h =>
        ⟨h.1, h.2.1, fun hr => h.2.2 (mapError_eq_ok.mp hr)⟩
  · rename_i habsent
    refine ensures_pure ⟨hwf, .refl fs, fun _ => ⟨hwf, hc, hx.absent_of_not_present ?_⟩⟩
    simpa using habsent

theorem prepareParent_ensures (hwf : fs.WellFormed) (hdir : fs.Canonical dir root)
    (name : String) :
    (prepareParent root.path x name).Ensures fs fun r fs' =>
      fs'.WellFormed ∧ ChangedIn root fs fs' ∧ (r = .ok () → fs'.Confined root p) := by
  rw [prepareParent, hx.parent]
  exact parentMade_ensures hx hwf hdir ArchiveError.ofFile (.plain (.unsafeName name))

theorem clearTarget_ensures (hwf : fs.WellFormed) (hc : fs.Confined root p)
    (policy : UnpackPolicy) :
    (clearTarget x policy).Ensures fs fun r fs' =>
      fs'.WellFormed ∧ ChangedIn root fs fs' ∧ (r = .ok () → fs'.Ready root p x) := by
  rw [clearTarget]
  exact cleared_ensures hx hwf hc policy.strict ArchiveError.ofFile (.plain (.wouldOverwrite x))

variable [Zlib.Inflater]

theorem writeFile_ensures (hr : fs.Ready root p x) (a : Archive) (r : Record) :
    (a.writeFile r x).Ensures fs fun _ fs' => fs'.WellFormed ∧ ChangedIn root fs fs' := by
  have hcreate := (hx.createFile hr Mode.file).withError (f := ArchiveError.ofFile)
    (Q := fun r fs' => fs'.WellFormed ∧ ChangedIn root fs fs' ∧
      ∀ n, r = .ok n → fs'.Holding root p last n)
    fun r fs' h => ⟨h.1, h.2.1, fun n hn => h.2.2 n (mapError_eq_ok.mp hn)⟩
  refine hcreate.bind (fun n fs₁ ⟨_, hch₁, hold₁⟩ => ?_) fun e fs₁ h₁ => ⟨h₁.1, h₁.2.1⟩
  have hstream := (isQuiet_stream (ε := ArchiveError) a r).apply fs₁
  refine Ensures.bind (R := fun _ fs₂ => Quiet fs₁ fs₂) hstream (fun d fs₂ hq =>
    ?_) fun e fs₂ hq => ?_
  · have hch₂ : ChangedIn root fs fs₂ := hch₁.trans hq.changedOnly
    refine (((hold₁ n rfl).quiet hq).append d.output).bind (fun _ fs₃ ⟨hold₃, hch₃⟩ => ?_)
      fun e fs₃ ⟨hold₃, hch₃⟩ => ⟨hold₃.wellFormed, hch₂.trans hch₃⟩
    have hch₃ := hch₂.trans hch₃
    split
    · -- the removal may fail, which is not reported
      have hremove := hx.removeFile hold₃
      exact Ensures.bind (R := fun _ fs₄ => fs₄.WellFormed ∧ ChangedIn root fs₃ fs₄) hremove
        (fun _ fs₄ h₄ => ensures_throw ⟨h₄.1, hch₃.trans h₄.2⟩)
        fun _ fs₄ h₄ => ⟨h₄.1, hch₃.trans h₄.2⟩
    · exact (hx.setMode hold₃ _).withError fun _ fs₄ h₄ => ⟨h₄.1, hch₃.trans h₄.2⟩
  · exact ⟨((hold₁ n rfl).quiet hq).wellFormed, hch₁.trans hq.changedOnly⟩

theorem writeLink_ensures (hr : fs.Ready root p x) (a : Archive) (r : Record) :
    (a.writeLink r root.path x).Ensures fs fun _ fs' =>
      fs'.WellFormed ∧ ChangedIn root fs fs' := by
  refine Ensures.bind (R := fun _ fs₁ => Quiet fs fs₁) ((isQuiet_payload a r).apply fs)
    (fun bytes fs₁ hq => ?_) fun e fs₁ hq => ⟨(hr.quiet hq).wellFormed, hq.changedOnly⟩
  have hr₁ := hr.quiet hq
  have hch₁ : ChangedIn root fs fs₁ := hq.changedOnly
  split
  · refine Ensures.bind (R := fun _ fs₂ => fs₂ = fs₁) rfl ?_ ?_
    · rintro stays fs₂ rfl
      split
      · exact (hx.makeLink hr₁ _).withError fun _ fs₃ h₃ => ⟨h₃.1, hch₁.trans h₃.2⟩
      · exact ensures_throw ⟨hr₁.wellFormed, hch₁⟩
    · rintro e fs₂ rfl
      exact ⟨hr₁.wellFormed, hch₁⟩
  · exact ensures_throw ⟨hr₁.wellFormed, hch₁⟩

end Steps

variable [Zlib.Inflater]

/-- **Unpacking an entry** touches only what it may. -/
theorem place_ensures (hwf : fs.WellFormed) (a : Archive) (r : Record) (dir : Path)
    (policy : UnpackPolicy) :
    (a.place r dir policy).Ensures fs fun _ fs' => fs.KeepsTo dir fs' := by
  have hsame : fs.KeepsTo dir fs := ⟨hwf, .refl fs⟩
  have hrest (x : Path) (hx : dir.containedJoin r.name = some x) :
      Call.Ensures (do
        (FileSystem.makeDirAll dir).plainly
        let root ← (Call.askResult (·.canonicalize dir)).plainly
        prepareParent root x r.name
        clearTarget x policy
        if r.kind = .symlink then a.writeLink r root x
        else a.writeFile r x
        return x) fs fun _ fs' => fs.KeepsTo dir fs' := by
    refine ensures_below hwf ArchiveError.ofFile fun fs₁ root hwf₁ hdir => ?_
    obtain ⟨p, last, hx⟩ := isPlace_of_containedJoin hdir.ne_empty hx
    refine (prepareParent_ensures hx hwf₁ hdir r.name).bind (fun _ fs₂ ⟨hwf₂, hch₂, hc₂⟩ => ?_)
      fun e fs₂ h₂ => ⟨h₂.1, h₂.2.1⟩
    refine (clearTarget_ensures hx hwf₂ (hc₂ rfl) policy).bind
      (fun _ fs₃ ⟨_, hch₃, hr₃⟩ => ?_) fun e fs₃ h₃ => ⟨h₃.1, hch₂.trans h₃.2.1⟩
    have hch₃ := hch₂.trans hch₃
    split
    · exact (writeLink_ensures hx (hr₃ rfl) a r).bind
        (fun _ fs₄ h₄ => ensures_pure ⟨h₄.1, hch₃.trans h₄.2⟩)
        fun _ fs₄ h₄ => ⟨h₄.1, hch₃.trans h₄.2⟩
    · exact (writeFile_ensures hx (hr₃ rfl) a r).bind
        (fun _ fs₄ h₄ => ensures_pure ⟨h₄.1, hch₃.trans h₄.2⟩)
        fun _ fs₄ h₄ => ⟨h₄.1, hch₃.trans h₄.2⟩
  rw [place]
  split
  · exact ensures_throw hsame
  · split
    · rename_i hx
      exact hrest _ hx
    · exact ensures_throw hsame

theorem unpack_ensures (hwf : fs.WellFormed) (a : Archive) (r : Record) (dir : Path)
    (policy : UnpackPolicy) :
    (a.unpack r dir policy).Ensures fs fun _ fs' => fs.KeepsTo dir fs' :=
  (place_ensures hwf a r dir policy).relabel _

end Archive

end Stowage
