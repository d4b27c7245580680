import Mathlib.Data.List.Forall2
import Stowage.Proofs.Unpack.Agreement

/-!
# What the pool does not change

A resolver keeps the containers that it has opened, up to a number.  Where one of them has been
read before depends on every call so far, also on those that have failed.  Here sequences of
calls are compared, which keep their pool (`Resolver.resolveAll`) or start with an empty one each
time (`Resolver.resolveAfresh`).

One step is what matters: a call with a pool and a call without one come to the same, in states
that differ in what is open, if the container that the pool has is still the one at its path
(`Resolver.agrees_resolution`).  A call keeps all that is open as it was, so this remains to be
asked of the siblings' files only (`Resolver.pool_is_transparent`).
-/

namespace Stowage

open FileSystem Result Call

variable {fs fs' fs₁ : FileSystem} {dir : Path} {text : String} {r : Resolver} {pool : Pool}
  {a : Archive}

/-! ## Places of siblings -/

/-- Places of siblings that are the same are written in the same way. -/
theorem Reference.eq_of_same {programDir p q : Path} {reference reference' : Reference}
    (hp : p ∈ reference.siblingPaths programDir) (hq : q ∈ reference'.siblingPaths programDir)
    (hsame : p.same q = true) : p = q := by
  obtain ⟨ending, -, hp⟩ := List.mem_filterMap.mp hp
  obtain ⟨ending', -, hq⟩ := List.mem_filterMap.mp hq
  obtain ⟨names, -, hnames, rfl⟩ := Path.containedJoin_eq_some hp
  obtain ⟨names', -, hnames', rfl⟩ := Path.containedJoin_eq_some hq
  have hcomponents := eq_of_beq hsame
  rw [Path.components_join_ofNames hnames, Path.components_join_ofNames hnames'] at hcomponents
  have hnames : names = names' :=
    (List.map_inj_right fun _ _ h => by cases h; rfl).mp (List.append_cancel_left hcomponents)
  rw [hnames]

/-! ## What a call leaves -/

namespace Resolver

theorem copyMember_retains (hwf : fs.WellFormed) (r : Resolver) (source : Path) (member : String)
    (dir : Path) : (r.copyMember source member dir).Ensures fs fun _ fs' =>
      ∃ gone, RetainsBut gone fs fs' := by
  unfold copyMember
  cases hplace : dir.containedJoin member with
  | none => exact Call.ensures_throw ⟨[], .refl fs⟩
  | some x =>
    refine ensures_placing hwf hplace r.policy.strict LaunchError.io
      (.archive (.plain (.unsafeName member))) (.archive (.plain (.wouldOverwrite x)))
      (fun root p hp => ?_) rfl (fun _ _ _ h => ⟨[], .of_all h.toRetains⟩) fun fs₂ root hready => ?_
    · rw [prepareParent, hp]
      rfl
    · obtain ⟨gone, hretains⟩ := hready.retains
      refine Call.Ensures.bind (R := fun _ fs' => RetainsAll fs₂ fs')
        ((copyFile_names hready.trim hready.wellFormed hready.absent source).withError
          fun result fs' h => ?_)
        (fun _ fs' h => ensures_pure ⟨gone, hretains.trans (.of_all h)⟩)
        fun _ fs' h => ⟨gone, hretains.trans (.of_all h)⟩
      cases result with
      | ok u =>
        obtain ⟨loc, n, hnamed, -⟩ := h
        exact hnamed.retains
      | error cause => exact h.toRetains

variable [Zlib.Inflater]

theorem unpackMember_retains (hwf : fs.WellFormed) (r : Resolver) (reference : Reference)
    (dir : Path) (a : Archive) : (r.unpackMember reference dir a).Ensures fs fun _ fs' =>
      ∃ gone, RetainsBut gone fs fs' := by
  rw [unpackMember]
  split
  · refine (a.unpack_outcome hwf _ dir r.policy).withError fun result fs' h => ?_
    cases result with
    | ok x =>
      obtain ⟨-, -, fs₂, hready, hwritten⟩ := h
      obtain ⟨gone, hretains⟩ := hready.retains
      obtain ⟨loc, hnamed⟩ := hwritten.named
      exact ⟨gone, hretains.trans (.of_all hnamed.retains)⟩
    | error e =>
      obtain ⟨-, hfails⟩ := h
      exact hfails.retains
  · exact Call.ensures_throw ⟨[], .refl fs⟩

/-! ## Sequences of calls -/

/-- One call of a sequence: what is asked for, what there is before it, and what it comes to. -/
structure Resolution where
  text : String
  dir : Path
  pool : Pool
  files : FileSystem
  result : Except LaunchError Path
  poolAfter : Pool
  filesAfter : FileSystem

/-- Carries out a call. -/
def resolution (r : Resolver) (text : String) (dir : Path) (pool : Pool) (fs : FileSystem) :
    Resolution :=
  let outcome := (r.resolve text dir).apply pool fs
  ⟨text, dir, pool, fs, outcome.1.1, outcome.1.2, outcome.2⟩

/-- Carries out calls one after the other. -/
def resolveAll (r : Resolver) : List (String × Path) → Pool → FileSystem → List Resolution
  | [], _, _ => []
  | (text, dir) :: calls, pool, fs =>
    let s := r.resolution text dir pool fs
    s :: r.resolveAll calls s.poolAfter s.filesAfter

/-- Carries out calls one after the other, with a pool of its own for each. -/
def resolveAfresh (r : Resolver) : List (String × Path) → FileSystem → List Resolution
  | [], _ => []
  | (text, dir) :: calls, fs =>
    let s := r.resolution text dir [] fs
    s :: r.resolveAfresh calls s.filesAfter

namespace Resolution

/-- The call is for a member of the container at a path. -/
def Uses (s : Resolution) (r : Resolver) (path : Path) : Prop :=
  ∃ reference, Reference.parse s.text = .ok reference ∧ r.sourceOf reference s.files = .packed path

/-- The call opens a container that the pool does not have, but has room for. -/
def Gains (s : Resolution) (r : Resolver) (a : Archive) : Prop :=
  ∃ path fs₁, s.Uses r path ∧ s.pool.find? path = none ∧
    (Archive.load path).apply s.files = (.ok a, fs₁) ∧ s.pool.length < Pool.capacity

/-- Two calls for the same have the same result and the same effect on the files. -/
structure Alike (s t : Resolution) : Prop where
  text : t.text = s.text
  dir : t.dir = s.dir
  files : Quiet s.files t.files
  result : t.result = s.result
  filesAfter : Quiet s.filesAfter t.filesAfter

end Resolution

end Resolver

/-- **A pool is in order**: it has no more containers than it may have, and none of them twice. -/
structure Pool.IsSound (pool : Pool) : Prop where
  length_le : pool.length ≤ Pool.capacity
  distinct : pool.Pairwise fun a b => a.path.same b.path = false

/-- A container at another path can be added, if there is room. -/
theorem Pool.IsSound.add (h : pool.IsSound) (hroom : pool.length < Pool.capacity)
    (hfind : pool.find? a.path = none) : IsSound (pool ++ [a]) where
  length_le := by
    rw [List.length_append]
    exact hroom
  distinct := by
    refine List.pairwise_append.mpr ⟨h.distinct, List.pairwise_singleton _ _, ?_⟩
    rintro b hb _ ha
    rw [List.mem_singleton.mp ha]
    simpa using List.find?_eq_none.mp hfind b hb

theorem Pool.same_of_find? {path : Path} (h : pool.find? path = some a) :
    a.path.same path = true :=
  List.find?_some (p := fun a : Archive => a.path.same path) h

theorem Pool.isSound_nil : IsSound [] := ⟨Nat.zero_le _, List.Pairwise.nil⟩

/-! ## The pool -/

namespace Resolver
variable {s t : Resolution} {calls : List (String × Path)}

/-- A text that is no reference changes nothing. -/
theorem resolve_malformed [Zlib.Inflater] {e : LaunchError}
    (hparse : Reference.parse text = .error e) (r : Resolver) (dir : Path) (pool : Pool)
    (fs : FileSystem) :
    (r.resolve text dir).apply pool fs = ((.error e, pool), fs) := by
  rw [resolve, Pooled.apply_bind, Pooled.apply_onFiles, apply_askResult, hparse]

theorem Resolution.Uses.unique {path path' : Path} (h : s.Uses r path) (h' : s.Uses r path') :
    path = path' := by
  obtain ⟨reference, hparse, hsource⟩ := h
  obtain ⟨reference', hparse', hsource'⟩ := h'
  cases hparse.symm.trans hparse'
  cases hsource.symm.trans hsource'
  rfl

theorem Resolution.Gains.unique {b : Archive} (h : s.Gains r a) (h' : s.Gains r b) : a = b := by
  obtain ⟨path, fs₁, huses, -, hload, -⟩ := h
  obtain ⟨path', fs₁', huses', -, hload', -⟩ := h'
  cases huses.unique huses'
  cases hload.symm.trans hload'
  rfl

section

variable [Zlib.Inflater]

/-- A call that uses a container takes it from the pool, or opens it. -/
theorem apply_of_uses {path : Path} (h : (r.resolution text dir pool fs).Uses r path) :
    ∃ reference, (r.resolve text dir).apply pool fs = match pool.find? path with
      | some a => ((((r.unpackMember reference dir a).apply fs).1, pool),
          ((r.unpackMember reference dir a).apply fs).2)
      | none => match (Archive.load path).apply fs with
        | (.ok a, fs₁) => ((((r.unpackMember reference dir a).apply fs₁).1, pool.add a),
            ((r.unpackMember reference dir a).apply fs₁).2)
        | (.error e, fs₁) => ((.error (.archive e), pool), fs₁) := by
  obtain ⟨reference, hparse, hsource⟩ := h
  have happly := (resolve_apply r hparse dir pool fs).trans (fetch_of_packed hsource dir pool)
  exact ⟨reference, happly.trans (Pooled.withArchive_eq pool fs path _)⟩

/-- A call that uses no container leaves the pool as it is. -/
theorem poolAfter_of_unused (h : ∀ path, ¬(r.resolution text dir pool fs).Uses r path) :
    (r.resolution text dir pool fs).poolAfter = pool := by
  cases hparse : Reference.parse text with
  | error e => simp only [resolution, resolve_malformed hparse]
  | ok reference =>
    have happly := resolve_apply r hparse dir pool fs
    cases hsource : r.sourceOf reference fs with
    | packed sibling => exact absurd ⟨reference, hparse, hsource⟩ (h sibling)
    | unpacked source =>
      rw [fetch_of_unpacked hsource] at happly
      simp only [resolution, happly]
    | nowhere =>
      rw [fetch_of_nowhere hsource] at happly
      simp only [resolution, happly]

/-- **What a call does to the pool**: it gains a container, or stays as it is. -/
theorem poolAfter_cases (r : Resolver) (text : String) (dir : Path) (pool : Pool)
    (fs : FileSystem) :
    (∃ a, (r.resolution text dir pool fs).Gains r a ∧
      (r.resolution text dir pool fs).poolAfter = pool ++ [a]) ∨
    (∀ a, ¬(r.resolution text dir pool fs).Gains r a) ∧
      (r.resolution text dir pool fs).poolAfter = pool := by
  by_cases hused : ∃ path, (r.resolution text dir pool fs).Uses r path
  · obtain ⟨path, huses⟩ := hused
    obtain ⟨reference, happly⟩ := apply_of_uses huses
    cases hfind : pool.find? path with
    | some a =>
      rw [hfind] at happly
      refine .inr ⟨?_, by simp only [resolution, happly]⟩
      rintro b ⟨path', _, huses', hnone, -⟩
      cases huses.unique huses'
      cases hfind.symm.trans hnone
    | none =>
      rw [hfind] at happly
      rcases hload : (Archive.load path).apply fs with ⟨e | a, fs₁⟩
      · rw [hload] at happly
        refine .inr ⟨?_, by simp only [resolution, happly]⟩
        rintro b ⟨path', _, huses', -, hload', -⟩
        cases huses.unique huses'
        cases hload.symm.trans hload'
      · rw [hload] at happly
        by_cases hroom : pool.length < Pool.capacity
        · refine .inl ⟨a, ⟨path, fs₁, huses, hfind, hload, hroom⟩, ?_⟩
          simp only [resolution, happly, Pool.add, if_pos hroom]
        · refine .inr ⟨?_, by simp only [resolution, happly, Pool.add, if_neg hroom]⟩
          rintro b ⟨_, _, _, _, _, hspace⟩
          exact hroom hspace
  · have hunused (path : Path) : ¬(r.resolution text dir pool fs).Uses r path :=
      fun huses => hused ⟨path, huses⟩
    refine .inr ⟨?_, poolAfter_of_unused hunused⟩
    rintro a ⟨path, _, huses, -⟩
    exact hunused path huses

/-- A pool stays in order. -/
theorem isSound_poolAfter (h : pool.IsSound) (r : Resolver) (text : String) (dir : Path)
    (fs : FileSystem) : (r.resolution text dir pool fs).poolAfter.IsSound := by
  obtain ⟨a, ⟨path, fs₁, -, hfind, hload, hroom⟩, hafter⟩ | ⟨-, hafter⟩ :=
    poolAfter_cases r text dir pool fs
  · rw [hafter]
    refine h.add hroom ?_
    rw [Archive.path_of_load hload]
    exact hfind
  · rwa [hafter]

/-- Every call of a sequence starts with a pool in order. -/
theorem exists_resolution (h : pool.IsSound) (hs : s ∈ r.resolveAll calls pool fs) :
    ∃ text dir pool' fs', pool'.IsSound ∧ s = r.resolution text dir pool' fs' := by
  induction calls generalizing pool fs with
  | nil => cases hs
  | cons call calls ih =>
    rcases List.mem_cons.mp hs with rfl | hs
    · exact ⟨call.1, call.2, pool, fs, h, rfl⟩
    · exact ih (isSound_poolAfter h r call.1 call.2 fs) hs

/-! ## What stays open -/

section Keeping
variable (hwf : fs.WellFormed)
include hwf

theorem wellFormed_filesAfter (r : Resolver) (text : String) (dir : Path) (pool : Pool) :
    (r.resolution text dir pool fs).filesAfter.WellFormed :=
  (r.resolve_ensures hwf text dir pool).1

/-- A call keeps all inodes and all that is open. -/
theorem resolution_retains (r : Resolver) (text : String) (dir : Path) (pool : Pool) :
    ∃ gone, RetainsBut gone fs (r.resolution text dir pool fs).filesAfter := by
  have hreads : IgnoresReading fun fs' => Quiet fs fs' ∧ RetainsAll fs fs' :=
    (ignoresReading_quiet fs).and (ignoresReading_retains _ fs)
  refine ensures_resolve (Q := fun _ fs' => ∃ gone, RetainsBut gone fs fs') hreads r text dir pool
    ⟨.refl fs, .refl fs⟩ (fun e fs' h => ⟨[], .of_all h.2⟩)
    (fun reference source _ => r.copyMember_retains hwf source reference.member dir)
    fun reference fs' a _ ⟨hq, hkept⟩ => ?_
  refine (unpackMember_retains (hq.wellFormed hwf) r reference dir a).mono fun _ fs'' h => ?_
  obtain ⟨gone, hretains⟩ := h
  exact ⟨gone, Retains.trans (.of_all hkept) hretains⟩

/-- **What the pool gains** is loaded, and has the content that its path has led to. -/
theorem isLoaded_of_gains (h : (r.resolution text dir pool fs).Gains r a) :
    a.IsLoaded (r.resolution text dir pool fs).filesAfter ∧
      fs.content a.path = .ok ((r.resolution text dir pool fs).filesAfter.contentOf a.file) := by
  obtain ⟨path, fs₁, huses, hfind, hload, -⟩ := h
  obtain ⟨reference, happly⟩ := apply_of_uses huses
  rw [show pool.find? path = none from hfind] at happly
  dsimp only at happly
  rw [show (Archive.load path).apply fs = (.ok a, fs₁) from hload] at happly
  have hq : Quiet fs fs₁ := by
    have h := (Archive.isQuiet_load path).apply fs
    rwa [show (Archive.load path).apply fs = (.ok a, fs₁) from hload] at h
  have hafter : (r.resolution text dir pool fs).filesAfter =
      ((r.unpackMember reference dir a).apply fs₁).2 := congrArg Prod.snd happly
  obtain ⟨gone, hretains⟩ :
      ∃ gone, RetainsBut gone fs₁ (r.resolution text dir pool fs).filesAfter :=
    hafter ▸ unpackMember_retains (hq.wellFormed hwf) r reference dir a
  obtain ⟨hloaded, hcontent⟩ := Archive.isLoaded_of_load hload
  refine ⟨hloaded.retained hretains, ?_⟩
  rw [hloaded.opened.contentOf hretains, Archive.path_of_load hload]
  exact hcontent

end Keeping

/-! ## With a pool and without -/

/-- **A call comes to the same with a pool and without one**, whatever is open, as long as the
container that the pool has is still the one at its path. -/
theorem agrees_resolution (hwf : fs.WellFormed) (hq : Quiet fs fs')
    (hpool : ∀ a ∈ pool, a.IsLoaded fs)
    (hcurrent : ∀ path a, (r.resolution text dir pool fs).Uses r path →
      pool.find? path = some a → a.path = path ∧ fs.content path = .ok (fs.contentOf a.file)) :
    Resolution.Alike (r.resolution text dir pool fs) (r.resolution text dir [] fs') := by
  suffices h : ((r.resolve text dir).apply [] fs').1.1 =
        ((r.resolve text dir).apply pool fs).1.1 ∧
      Quiet ((r.resolve text dir).apply pool fs).2 ((r.resolve text dir).apply [] fs').2 from
    ⟨rfl, rfl, hq, h.1, h.2⟩
  cases hparse : Reference.parse text with
  | error e =>
    rw [resolve_malformed hparse, resolve_malformed hparse]
    exact ⟨rfl, hq⟩
  | ok reference =>
    have hsame : r.sourceOf reference fs' = r.sourceOf reference fs :=
      sourceOf_congr fun source _ => hq.isFile_eq source
    rw [resolve_apply r hparse, resolve_apply r hparse]
    cases hsource : r.sourceOf reference fs with
    | unpacked source =>
      rw [fetch_of_unpacked hsource, fetch_of_unpacked (hsame.trans hsource)]
      obtain ⟨hresult, hquiet⟩ := r.agrees_copyMember hq hwf source reference.member dir
      exact ⟨hresult, hquiet⟩
    | nowhere =>
      rw [fetch_of_nowhere hsource, fetch_of_nowhere (hsame.trans hsource)]
      exact ⟨rfl, hq⟩
    | packed sibling =>
      rw [fetch_of_packed hsource, fetch_of_packed (hsame.trans hsource), Pooled.withArchive_eq,
        Pooled.withArchive_eq]
      cases hfind : pool.find? sibling with
      | some a =>
        obtain ⟨rfl, hcontent⟩ := hcurrent sibling a ⟨reference, hparse, hsource⟩ hfind
        have hloaded := hpool a (List.mem_of_find?_eq_some hfind)
        obtain ⟨a', fs₁', hload, hq₁, htwins⟩ := Archive.load_again hloaded hq hcontent
        obtain ⟨hresult, hquiet⟩ := r.agrees_unpackMember htwins hq₁ hwf reference dir
        simp only [Pool.find?, List.find?_nil, hload]
        exact ⟨hresult, hquiet⟩
      | none =>
        simp only [Pool.find?, List.find?_nil]
        obtain ⟨e, fs₁, fs₁', hload, hload', hq₁⟩ |
            ⟨a, a', fs₁, fs₁', hload, hload', hq₁, htwins⟩ :=
          Archive.load_twice hq (isFile_of_sourceOf_packed hsource)
        · simp only [hload, hload']
          exact ⟨trivial, hq₁⟩
        · have hwf₁ : fs₁.WellFormed := by
            have h := (Archive.isQuiet_load sibling).apply fs
            rw [hload] at h
            exact h.wellFormed hwf
          obtain ⟨hresult, hquiet⟩ := r.agrees_unpackMember htwins hq₁ hwf₁ reference dir
          simp only [hload, hload']
          exact ⟨hresult, hquiet⟩

end

/-- No sibling is changed between two calls that use it. -/
def Undisturbed (r : Resolver) (calls : List Resolution) : Prop :=
  calls.Pairwise fun s t => ∀ path, s.Uses r path → t.Uses r path →
    t.files.content path = s.files.content path

section Computing

/-- The container that a call uses, if it uses one. -/
def Resolution.used? (s : Resolution) (r : Resolver) : Option Path :=
  match Reference.parse s.text with
  | .ok reference => match r.sourceOf reference s.files with
    | .packed path => some path
    | _ => none
  | .error _ => none

theorem Resolution.uses_iff {path : Path} : s.Uses r path ↔ s.used? r = some path := by
  rw [Uses, used?]
  cases Reference.parse s.text with
  | error e => simp
  | ok reference => cases hsource : r.sourceOf reference s.files <;> simp [hsource]

instance (r : Resolver) (calls : List Resolution) : Decidable (r.Undisturbed calls) :=
  have (s t : Resolution) : Decidable (∀ path, s.Uses r path → t.Uses r path →
      t.files.content path = s.files.content path) :=
    decidable_of_iff (∀ path ∈ s.used? r, t.used? r = some path →
      t.files.content path = s.files.content path) (by simp only [Resolution.uses_iff]; rfl)
  inferInstanceAs (Decidable (List.Pairwise _ calls))

end Computing

/-- What a pool has is loaded from places of siblings, and among the calls to come, those that
use it find its content at its path. -/
structure Serves (r : Resolver) (pool : Pool) (fs : FileSystem) (later : List Resolution) :
    Prop where
  loaded : ∀ a ∈ pool, a.IsLoaded fs
  sibling : ∀ a ∈ pool, ∃ reference : Reference, a.path ∈ reference.siblingPaths r.programDir
  current : ∀ a ∈ pool, ∀ t ∈ later, t.Uses r a.path →
    t.files.content a.path = .ok (fs.contentOf a.file)

section

variable [Zlib.Inflater]

/-- **A step keeps the pool current.** -/
theorem Serves.next (hwf : fs.WellFormed) {later : List Resolution}
    (h : r.Serves pool fs (r.resolution text dir pool fs :: later))
    (hundisturbed : r.Undisturbed (r.resolution text dir pool fs :: later)) :
    r.Serves (r.resolution text dir pool fs).poolAfter (r.resolution text dir pool fs).filesAfter
      later := by
  obtain ⟨gone, hretains⟩ := resolution_retains hwf r text dir pool
  have hkept : r.Serves pool (r.resolution text dir pool fs).filesAfter later := by
    refine ⟨fun a ha => (h.loaded a ha).retained hretains, h.sibling, fun a ha t ht huses => ?_⟩
    rw [(h.loaded a ha).opened.contentOf hretains]
    exact h.current a ha t (List.mem_cons_of_mem _ ht) huses
  obtain ⟨a, hgains, hafter⟩ | ⟨-, hafter⟩ := poolAfter_cases r text dir pool fs
  · obtain ⟨hloaded, hcontent⟩ := isLoaded_of_gains hwf hgains
    obtain ⟨path, fs₁, huses, -, hload, -⟩ := hgains
    obtain rfl := Archive.path_of_load hload
    have hsibling : ∃ reference : Reference, a.path ∈ reference.siblingPaths r.programDir :=
      let ⟨reference, _, hsource⟩ := huses
      ⟨reference, mem_of_sourceOf_packed hsource⟩
    rw [hafter]
    refine ⟨?_, ?_, ?_⟩
    · exact List.forall_mem_append.mpr ⟨hkept.loaded, by simpa using hloaded⟩
    · exact List.forall_mem_append.mpr ⟨hkept.sibling, by simpa using hsibling⟩
    · refine List.forall_mem_append.mpr ⟨hkept.current, fun b hb t ht huses' => ?_⟩
      cases List.mem_singleton.mp hb
      rw [(List.pairwise_cons.mp hundisturbed).1 t ht a.path huses huses']
      exact hcontent
  · rw [hafter]
    exact hkept

/-- **A sequence of calls comes to the same with a pool and without one.** -/
theorem Serves.alike (hwf : fs.WellFormed) (hq : Quiet fs fs')
    (h : r.Serves pool fs (r.resolveAll calls pool fs))
    (hundisturbed : r.Undisturbed (r.resolveAll calls pool fs)) :
    List.Forall₂ Resolution.Alike (r.resolveAll calls pool fs) (r.resolveAfresh calls fs') := by
  induction calls generalizing pool fs fs' with
  | nil => exact .nil
  | cons call calls ih =>
    have hhead : Resolution.Alike (r.resolution call.1 call.2 pool fs)
        (r.resolution call.1 call.2 [] fs') := by
      refine agrees_resolution hwf hq h.loaded fun path a huses hfind => ?_
      have ha := List.mem_of_find?_eq_some hfind
      obtain ⟨reference, hsibling⟩ := h.sibling a ha
      obtain rfl : a.path = path := by
        obtain ⟨_, _, hsource⟩ := huses
        exact Reference.eq_of_same hsibling (mem_of_sourceOf_packed hsource)
          (Pool.same_of_find? hfind)
      have hcontent := h.current a ha (r.resolution call.1 call.2 pool fs) List.mem_cons_self huses
      exact ⟨rfl, hcontent⟩
    refine .cons hhead (ih (wellFormed_filesAfter hwf r call.1 call.2 pool) hhead.filesAfter
      (h.next hwf hundisturbed) (List.pairwise_cons.mp hundisturbed).2)

/-- **The pool is a bounded cache that cannot be noticed.**  In every sequence of calls it never
has more than twenty containers, none of them twice, and loses none.  It gains one exactly when a
container that it does not have is opened while there is room.  And if no sibling is changed
between two calls that use it, every call has the same result and the same effect on the files as
one that opens its container afresh. -/
theorem pool_is_transparent (hwf : fs.WellFormed) (r : Resolver)
    (calls : List (String × Path)) :
    (∀ s ∈ r.resolveAll calls [] fs, s.poolAfter.length ≤ 20 ∧
      (s.poolAfter.Pairwise fun a b => a.path.same b.path = false) ∧ s.pool <+: s.poolAfter ∧
      (s.poolAfter = s.pool ∨ ∃ a, s.poolAfter = s.pool ++ [a]) ∧
      ∀ a, s.poolAfter = s.pool ++ [a] ↔ s.Gains r a) ∧
    (r.Undisturbed (r.resolveAll calls [] fs) →
      List.Forall₂ Resolution.Alike (r.resolveAll calls [] fs) (r.resolveAfresh calls fs)) := by
  refine ⟨fun s hs => ?_, fun hundisturbed => ?_⟩
  · obtain ⟨text, dir, pool, fs₁, hsound, rfl⟩ := exists_resolution Pool.isSound_nil hs
    obtain ⟨hlength, hdistinct⟩ := isSound_poolAfter hsound r text dir fs₁
    refine ⟨hlength, hdistinct, ?_⟩
    obtain ⟨a, hgains, hafter⟩ | ⟨hnone, hafter⟩ := poolAfter_cases r text dir pool fs₁
    · rw [hafter]
      refine ⟨List.prefix_append _ _, .inr ⟨a, rfl⟩, fun b => ⟨fun h => ?_, fun h => ?_⟩⟩
      · cases List.append_cancel_left h
        exact hgains
      · rw [hgains.unique h]
        rfl
    · rw [hafter]
      refine ⟨List.prefix_rfl, .inl rfl, fun b => ⟨fun h => ?_, fun h => absurd h (hnone b)⟩⟩
      have hlength := congrArg List.length h
      simp [resolution] at hlength
  · have hempty : r.Serves [] fs (r.resolveAll calls [] fs) :=
      ⟨by simp, by simp, by simp⟩
    exact hempty.alike hwf (.refl fs) hundisturbed

end

/-- The general statement for a container that is used three times, the second time for a member
that it does not have. -/
theorem pool_is_transparent_shared :
    let r : Resolver := ⟨⟨"/"⟩, ⟨false⟩⟩
    let calls : List (String × Path) := [("c:x", ⟨"/out"⟩), ("c:y", ⟨"/out"⟩), ("c:x", ⟨"/out/2"⟩)]
    let files := Archive.packedFiles [.plain .data "x" [1, 2]]
    (r.resolveAll calls [] files).map (fun s => (s.result.toOption, s.poolAfter.length)) =
        [(some ⟨"/out/x"⟩, 1), (none, 1), (some ⟨"/out/2/x"⟩, 1)] ∧
      (∀ s ∈ r.resolveAll calls [] files, s.pool <+: s.poolAfter) ∧
      List.Forall₂ Resolution.Alike (r.resolveAll calls [] files)
        (r.resolveAfresh calls files) := by
  intro r calls files
  have hwf : files.WellFormed := by decide +kernel
  have hundisturbed : r.Undisturbed (r.resolveAll calls [] files) := by decide +kernel
  obtain ⟨hpool, halike⟩ := pool_is_transparent hwf r calls
  exact ⟨by decide +kernel, fun s hs => (hpool s hs).2.2.1, halike hundisturbed⟩

end Resolver

end Stowage
