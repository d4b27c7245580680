import Stowage.Proofs.Unpack.Outcome

/-!
# What a reference resolves to

A reference names a sibling and a member of it, with a colon between them.  The member is taken
from the file that the sibling has for it when it lies unpacked beside the program, and only if
there is none from the sibling as a container (`Resolver.sourceOf`).  All these files lie below
the directory of the program (`Reference.isUnder_of_mem_sources`).

`Resolver.resolve_finds_member` says what comes of it: the member is put at its place with the
content that it has there, whichever file it is taken from, or an error tells what is missing.
-/

namespace Stowage

open FileSystem Result Call

variable {fs fs' fs₁ fs₂ : FileSystem} {dir x source sibling : Path} {text : String}
  {reference : Reference} {pool pool' : Pool} {a a' : Archive} {strict : Bool} {bytes : Bytes}

/-! ## References -/

namespace Reference

/-- A text is the spelling of a reference: its location and its member with a colon between them,
which is the first one. -/
structure IsSpelled (reference : Reference) (text : String) : Prop where
  text_eq : text = reference.location ++ ":" ++ reference.member
  first : ':' ∉ reference.location.toList
  location : reference.location ≠ ""
  member : reference.member ≠ ""

/-- The first colon of a text, if it has one, is its first or its last character. -/
def IsMalformed (text : String) : Prop :=
  ∀ before after, text.toList = before ++ ':' :: after → ':' ∉ before → before = [] ∨ after = []

/-- A text with a colon is read as what stands before and after the first one. -/
theorem parse_of_split {before after : List Char}
    (h : Text.splitOnceChars ':' text.toList = some (before, after)) :
    parse text = if before = [] ∨ after = [] then .error (.invalidReference text)
      else .ok ⟨.ofList before, .ofList after⟩ := by
  simp only [parse, Text.splitOnce, h, Option.map_some, String.ofList_eq_empty_iff,
    Bool.or_eq_true, decide_eq_true_eq]

/-- **A text is read as the reference** that it is the spelling of. -/
theorem parse_of_isSpelled (h : reference.IsSpelled text) : parse text = .ok reference := by
  have hsplit : Text.splitOnceChars ':' text.toList =
      some (reference.location.toList, reference.member.toList) := by
    rw [h.text_eq, String.toList_append, String.toList_append, List.append_assoc]
    exact Text.splitOnceChars_append h.first _
  have hparts : ¬(reference.location.toList = [] ∨ reference.member.toList = []) := by
    rw [String.toList_eq_nil_iff, String.toList_eq_nil_iff, not_or]
    exact ⟨h.location, h.member⟩
  rw [parse_of_split hsplit, if_neg hparts, String.ofList_toList, String.ofList_toList]

/-- **A text is a reference**, or there is no colon that divides it. -/
theorem parse_cases (text : String) :
    (∃ reference, parse text = .ok reference ∧ ¬IsMalformed text) ∨
      parse text = .error (.invalidReference text) ∧ IsMalformed text := by
  cases hsplit : Text.splitOnceChars ':' text.toList with
  | none =>
    refine .inr ⟨by rw [parse, Text.splitOnce, hsplit]; rfl, fun before after htext => ?_⟩
    refine absurd ?_ (Text.splitOnceChars_eq_none.mp hsplit)
    rw [htext]
    exact List.mem_append_right _ List.mem_cons_self
  | some parts =>
    obtain ⟨before, after⟩ := parts
    obtain ⟨htext, hfirst⟩ := Text.splitOnceChars_eq_some hsplit
    rw [parse_of_split hsplit]
    split
    · rename_i hempty
      refine .inr ⟨rfl, fun before' after' htext' hfirst' => ?_⟩
      rw [htext', Text.splitOnceChars_append hfirst'] at hsplit
      cases hsplit
      exact hempty
    · rename_i hparts
      exact .inl ⟨_, rfl, fun h => hparts (h before after htext hfirst)⟩

end Reference

/-! ## Where members are -/

namespace Path

/-- A path lies below a directory as it is written: it goes on with proper names only. -/
def IsUnder (p dir : Path) : Prop :=
  ∃ names : List String, (∀ s ∈ names, IsName s) ∧ p.components = dir.components ++ names.map .name

theorem isUnder_join {names : List String} (hn : ∀ s ∈ names, IsName s) (dir : Path) :
    (dir.join (ofNames names)).IsUnder dir :=
  ⟨names, hn, components_join_ofNames hn dir⟩

end Path

namespace Reference

/-- All files that a reference can stand for, seen from the directory of a program. -/
def sources (programDir : Path) (reference : Reference) : List Path :=
  (reference.unpackedPath.map programDir.join).toList ++ reference.siblingPaths programDir

/-- **What a reference can stand for** lies below the directory of the program. -/
theorem isUnder_of_mem_sources (programDir : Path) (h : source ∈ reference.sources programDir) :
    source.IsUnder programDir := by
  rcases List.mem_append.mp h with hunpacked | hsibling
  · obtain ⟨relative, hrelative, rfl⟩ := Option.map_eq_some_iff.mp (Option.mem_toList.mp hunpacked)
    obtain ⟨names, hnames, rfl⟩ := Path.normalizeRelative_eq_some hrelative
    exact Path.isUnder_join hnames programDir
  · obtain ⟨ending, -, hjoin⟩ := List.mem_filterMap.mp hsibling
    obtain ⟨names, -, hnames, rfl⟩ := Path.containedJoin_eq_some hjoin
    exact Path.isUnder_join hnames programDir

end Reference

/-- Where the member that a reference stands for is taken from. -/
inductive MemberSource where
  /-- The sibling lies unpacked beside the program, and this is its file. -/
  | unpacked (source : Path)
  /-- The sibling is a container. -/
  | packed (sibling : Path)
  | nowhere
  deriving DecidableEq, Repr

/-- **A container is opened**, or the pool has it open. -/
inductive Pool.Opens (pool : Pool) (fs : FileSystem) (path : Path) (a : Archive) :
    FileSystem → Prop
  | pooled : pool.find? path = some a → Opens pool fs path a fs
  | loaded {fs' : FileSystem} : pool.find? path = none →
      (Archive.load path).apply fs = (.ok a, fs') → Opens pool fs path a fs'

namespace Pool.Opens

theorem unique (h : pool.Opens fs sibling a fs₁) (h' : pool.Opens fs sibling a' fs₂) :
    a = a' ∧ fs₁ = fs₂ := by
  cases h with
  | pooled hfind =>
    cases h' with
    | pooled hfind' => exact ⟨Option.some.inj (hfind.symm.trans hfind'), rfl⟩
    | loaded hnone => rw [hfind] at hnone; cases hnone
  | loaded hnone hload =>
    cases h' with
    | pooled hfind' => rw [hfind'] at hnone; cases hnone
    | loaded _ hload' =>
      cases hload.symm.trans hload'
      exact ⟨rfl, rfl⟩

/-- Opening a container only reads. -/
theorem quiet (h : pool.Opens fs sibling a fs₁) : Quiet fs fs₁ := by
  cases h with
  | pooled => exact ⟨fs.openFiles, rfl⟩
  | loaded _ hload =>
    have hq := (Archive.isQuiet_load sibling).apply fs
    rwa [hload] at hq

/-- What has been opened is open. -/
theorem hasOpen (hpool : ∀ a ∈ pool, fs.HasOpen a.file) (h : pool.Opens fs sibling a fs₁) :
    fs₁.HasOpen a.file := by
  cases h with
  | pooled hfind => exact hpool a (List.mem_of_find?_eq_some hfind)
  | loaded _ hload => exact Archive.hasOpen_of_load hload

end Pool.Opens

/-- A container keeps the path that it was opened at. -/
theorem Archive.path_of_load (h : (load x).apply fs = (.ok a, fs')) : a.path = x := by
  obtain ⟨content, hcontent⟩ := content_of_load (congrArg Prod.fst h)
  obtain ⟨-, -, -, -, -, -, -, -, hpath, -⟩ :=
    ofContent_eq_ok.mp ((load_eq_ok hcontent).mp (congrArg Prod.fst h))
  exact hpath

theorem Pooled.apply_onFiles {ε α : Type} (c : Call ε α) (pool : Pool) (fs : FileSystem) :
    (onFiles id c).apply pool fs = (((c.apply fs).1, pool), (c.apply fs).2) :=
  congrArg (fun result => ((result, pool), (c.apply fs).2)) (mapError_id _)

/-- **Using a container** is using the one that the pool has, or else the one that is opened and
added to the pool. -/
theorem Pooled.withArchive_eq (pool : Pool) (fs : FileSystem) (path : Path)
    (use : Archive → Call LaunchError Path) :
    (withArchive path use).apply pool fs = match pool.find? path with
      | some a => ((((use a).apply fs).1, pool), ((use a).apply fs).2)
      | none => match (Archive.load path).apply fs with
        | (.ok a, fs₁) => ((((use a).apply fs₁).1, pool.add a), ((use a).apply fs₁).2)
        | (.error e, fs₁) => ((.error (.archive e), pool), fs₁) := by
  have hget : (get : Pooled LaunchError Pool).apply pool fs = ((.ok pool, pool), fs) := rfl
  rw [withArchive, apply_bind, hget]
  dsimp only
  cases pool.find? path with
  | some a => exact apply_onFiles _ pool fs
  | none =>
    have hload : (onFiles LaunchError.archive (Archive.load path)).apply pool fs =
        ((((Archive.load path).apply fs).1.mapError .archive, pool),
          ((Archive.load path).apply fs).2) := rfl
    dsimp only
    rw [apply_bind, hload]
    rcases (Archive.load path).apply fs with ⟨e | a, fs₁⟩
    · rfl
    · exact apply_onFiles _ (pool.add a) fs₁

/-- What is used is what is opened, which the pool then may have; or it cannot be opened. -/
theorem Pooled.withArchive_apply (pool : Pool) (fs : FileSystem) (path : Path)
    (use : Archive → Call LaunchError Path) :
    (∃ a fs₁ pool', pool.Opens fs path a fs₁ ∧ (∀ b ∈ pool', b ∈ pool ∨ b.path = path) ∧
      (withArchive path use).apply pool fs =
        ((((use a).apply fs₁).1, pool'), ((use a).apply fs₁).2)) ∨
    (∃ e fs₁, (withArchive path use).apply pool fs = ((.error (.archive e), pool), fs₁)) ∧
      ∀ a fs₁, ¬pool.Opens fs path a fs₁ := by
  rw [withArchive_eq]
  cases hfind : pool.find? path with
  | some a => exact .inl ⟨a, fs, pool, .pooled hfind, fun b hb => .inl hb, rfl⟩
  | none =>
    rcases happly : (Archive.load path).apply fs with ⟨e | a, fs₁⟩
    · refine .inr ⟨⟨e, fs₁, rfl⟩, fun a fs₂ h => ?_⟩
      cases h with
      | pooled hfind' => rw [hfind] at hfind'; cases hfind'
      | loaded _ hload' => rw [happly] at hload'; cases hload'
    · refine .inl ⟨a, fs₁, pool.add a, .loaded hfind happly, fun b hb => ?_, rfl⟩
      rw [Pool.add] at hb
      split at hb
      · refine (List.mem_append.mp hb).imp_right fun hb => ?_
        rw [List.mem_singleton.mp hb, Archive.path_of_load happly]
      · exact .inl hb

namespace Resolver

/-- A file of the unpacked sibling comes first, then the sibling as a container. -/
def sourceOf (r : Resolver) (reference : Reference) (fs : FileSystem) : MemberSource :=
  match (reference.unpackedPath.map r.programDir.join).filter fs.isFile with
  | some source => .unpacked source
  | none => match (reference.siblingPaths r.programDir).find? fs.isFile with
    | some sibling => .packed sibling
    | none => .nowhere

section SourceOf
variable {r : Resolver}

/-- What is copied is the file of the unpacked sibling. -/
theorem mem_of_sourceOf_unpacked (h : r.sourceOf reference fs = .unpacked source) :
    source ∈ reference.sources r.programDir ∧ fs.isFile source = true := by
  unfold sourceOf at h
  split at h
  · rename_i found hfound
    cases h
    obtain ⟨hpath, hfile⟩ := Option.filter_eq_some_iff.mp hfound
    exact ⟨List.mem_append_left _ (Option.mem_toList.mpr hpath), hfile⟩
  · split at h <;> cases h

/-- What is opened is where the sibling may be. -/
theorem mem_of_sourceOf_packed (h : r.sourceOf reference fs = .packed sibling) :
    sibling ∈ reference.siblingPaths r.programDir := by
  unfold sourceOf at h
  split at h
  · cases h
  · split at h
    · rename_i found hfound
      cases h
      exact List.mem_of_find?_eq_some hfound
    · cases h

theorem isFile_of_sourceOf_packed (h : r.sourceOf reference fs = .packed sibling) :
    fs.isFile sibling = true := by
  unfold sourceOf at h
  split at h
  · cases h
  · split at h
    · rename_i found hfound
      cases h
      exact List.find?_some hfound
    · cases h

theorem mem_sources_of_sourceOf (h : r.sourceOf reference fs = .unpacked source ∨
    r.sourceOf reference fs = .packed source) : source ∈ reference.sources r.programDir :=
  h.elim (fun h => (mem_of_sourceOf_unpacked h).1) fun h =>
    List.mem_append_right _ (mem_of_sourceOf_packed h)

/-- **Nothing else is tested**: where a member is found depends only on which of the files that
its reference can stand for are there. -/
theorem sourceOf_congr
    (h : ∀ source ∈ reference.sources r.programDir, fs₂.isFile source = fs.isFile source) :
    r.sourceOf reference fs₂ = r.sourceOf reference fs := by
  have hunpacked : (reference.unpackedPath.map r.programDir.join).filter fs₂.isFile =
      (reference.unpackedPath.map r.programDir.join).filter fs.isFile := by
    cases hpath : reference.unpackedPath.map r.programDir.join with
    | none => rfl
    | some source =>
      have hsource := h source (List.mem_append_left _ (Option.mem_toList.mpr hpath))
      rw [Option.filter_some, Option.filter_some, hsource]
  have hsiblings : (reference.siblingPaths r.programDir).find? fs₂.isFile =
      (reference.siblingPaths r.programDir).find? fs.isFile := by
    rw [← List.head?_filter, ← List.head?_filter, List.filter_congr fun sibling hmem =>
      h sibling (List.mem_append_right _ hmem)]
  unfold sourceOf
  rw [hunpacked, hsiblings]

end SourceOf

/-- Looking for an unpacked sibling comes to copying its file, if there is one. -/
theorem copyUnpacked_apply (r : Resolver) (reference : Reference) (dir : Path) (fs : FileSystem) :
    (r.copyUnpacked reference dir).apply fs =
      match (reference.unpackedPath.map r.programDir.join).filter fs.isFile with
      | some source =>
        let outcome := (r.copyMember source reference.member dir).apply fs
        (outcome.1.map some, outcome.2)
      | none => (.ok none, fs) := by
  unfold copyUnpacked
  cases reference.unpackedPath with
  | none => rfl
  | some relative =>
    rw [apply_bind, apply_ask, Option.map_some, Option.filter_some]
    dsimp only
    split
    · exact apply_map _ _ fs
    · rfl

variable [Zlib.Inflater]

/-- What is done for a reference: its member is copied from a file, or unpacked from a
container, or there is nothing to take it from. -/
def fetch (r : Resolver) (reference : Reference) (dir : Path) (pool : Pool) (fs : FileSystem) :
    (Except LaunchError Path × Pool) × FileSystem :=
  match r.sourceOf reference fs with
  | .unpacked source =>
    let outcome := (r.copyMember source reference.member dir).apply fs
    ((outcome.1, pool), outcome.2)
  | .packed sibling => (Pooled.withArchive sibling (r.unpackMember reference dir)).apply pool fs
  | .nowhere => ((.error (.dependencyNotFound reference.location reference.member), pool), fs)

section Fetch
variable {r : Resolver}

theorem fetch_of_unpacked (h : r.sourceOf reference fs = .unpacked source) (dir : Path)
    (pool : Pool) : r.fetch reference dir pool fs =
      ((((r.copyMember source reference.member dir).apply fs).1, pool),
        ((r.copyMember source reference.member dir).apply fs).2) := by
  unfold fetch
  rw [h]

theorem fetch_of_packed (h : r.sourceOf reference fs = .packed sibling) (dir : Path)
    (pool : Pool) : r.fetch reference dir pool fs =
      (Pooled.withArchive sibling (r.unpackMember reference dir)).apply pool fs := by
  unfold fetch
  rw [h]

theorem fetch_of_nowhere (h : r.sourceOf reference fs = .nowhere) (dir : Path) (pool : Pool) :
    r.fetch reference dir pool fs =
      ((.error (.dependencyNotFound reference.location reference.member), pool), fs) := by
  unfold fetch
  rw [h]

end Fetch

/-- **Resolving a reference** follows where its member is. -/
theorem resolve_apply (r : Resolver) (hparse : Reference.parse text = .ok reference) (dir : Path)
    (pool : Pool) (fs : FileSystem) :
    (r.resolve text dir).apply pool fs = r.fetch reference dir pool fs := by
  rw [resolve, Pooled.apply_bind, Pooled.apply_onFiles, apply_askResult, hparse]
  dsimp only
  rw [Pooled.apply_bind, Pooled.apply_onFiles, copyUnpacked_apply]
  unfold fetch sourceOf
  cases (reference.unpackedPath.map r.programDir.join).filter fs.isFile with
  | some source =>
    dsimp only
    cases ((r.copyMember source reference.member dir).apply fs).1 <;> rfl
  | none =>
    dsimp only
    rw [Pooled.apply_bind, Pooled.apply_onFiles, apply_ask]
    dsimp only
    cases (reference.siblingPaths r.programDir).find? fs.isFile with
    | some sibling => rfl
    | none => rfl

end Resolver

/-! ## Where members come to -/

theorem FileSystem.isFile_iff : fs.isFile x = true ↔
    ∃ loc n, fs.find true x = .ok loc ∧ fs.node? loc = some (.file n) := by
  rw [isFile]
  cases fs.find true x with
  | error e => simp
  | ok loc =>
    cases hnode : fs.node? loc with
    | none => simp [hnode]
    | some node => cases node <;> simp [hnode]

theorem FileSystem.allows_of_file {loc : Location} {n : Nat} (h : fs.node? loc = some (.file n))
    (access : Access) : fs.allows loc access = (fs.inode n).mode.allows access := by
  rw [allows, h]

/-- **A file that is read when a place has been made ready** has the content that it had before.
It may have been removed, but nothing has come instead of it. -/
theorem Readied.content_of_isFile (h : Readied fs dir x strict fs₂) (hwf : fs.WellFormed)
    (hfile : fs.isFile source = true) (hcontent : fs₂.content source = .ok bytes) :
    fs.content source = .ok bytes := by
  obtain ⟨loc, n, hfind, hnode⟩ := isFile_iff.mp hfile
  obtain ⟨loc₂, n₂, hfind₂, hallows, hnode₂, rfl⟩ := content_eq_ok.mp hcontent
  have hkept := h.prepared.toRetains
  obtain ⟨gone, hcleared⟩ := h.cleared.retains h.prepared.wellFormed
  -- with the directories made, and before anything is removed, both are found
  have hthere := find_mono hfind hkept.nodesIn.shows hkept.workingDir
  have hthere₂ := find_mono hfind₂ h.cleared.nodesIn.shows hcleared.workingDir.symm
  obtain rfl := Except.ok.inj (hthere.symm.trans hthere₂)
  have hsame := (hkept.nodesIn _ _ hnode).symm.trans (h.cleared.nodesIn _ _ hnode₂)
  obtain rfl : n = n₂ := by
    cases hsame
    rfl
  have hn := hwf.lt_length_of_file hnode
  have hinode : fs₂.inode n = fs.inode n :=
    (hcleared.inodes n (Nat.lt_of_lt_of_le hn hkept.length_le)).trans (hkept.inodes n hn)
  refine content_eq_ok.mpr ⟨loc, n, hfind, ?_, hnode, by rw [hinode]⟩
  rwa [allows_of_file hnode, ← hinode, ← allows_of_file hnode₂]

namespace Resolver
variable (r : Resolver) (reference : Reference) (pool : Pool) (fs : FileSystem)

/-- **The member is nowhere**: there is no file to take it from, or only a container without an
entry of its name. -/
inductive Lacks : Prop
  | nowhere : r.sourceOf reference fs = .nowhere → Lacks
  | unlisted {sibling : Path} {a : Archive} {fs₁ : FileSystem} :
      r.sourceOf reference fs = .packed sibling → pool.Opens fs sibling a fs₁ →
      a.find? reference.member = none → Lacks

section

variable [Zlib.Inflater]

/-- **The member has come to a place**, with the content that it has where it is taken from. -/
inductive Delivers (x : Path) (fs' : FileSystem) : Prop
  /-- It is a copy of the file of the unpacked sibling. -/
  | copied {source : Path} {bytes : Bytes} {loc : Location} {mode : Mode} :
      r.sourceOf reference fs = .unpacked source → fs.content source = .ok bytes →
      fs'.find false x = .ok loc → fs'.entry? loc = some (.file mode bytes) → Delivers x fs'
  /-- It is what the first entry of its name is on disk. -/
  | extracted {sibling : Path} {a : Archive} {fs₁ : FileSystem} {record : Record} {bytes : Bytes}
      {loc : Location} {e : FileEntry} :
      r.sourceOf reference fs = .packed sibling → pool.Opens fs sibling a fs₁ →
      a.find? reference.member = some record → ((a.payload record).apply fs₁).1 = .ok bytes →
      record.onDisk bytes = some e → fs'.find false x = .ok loc → fs'.entry? loc = some e →
      Delivers x fs'

/-- **What resolving a reference comes to**: its result, and the pool and the file system that it
leaves. -/
structure Settles (dir : Path) (result : Except LaunchError Path) (pool' : Pool)
    (fs' : FileSystem) : Prop where
  /-- No container is opened but the one that the member is taken from. -/
  opened : ∀ a ∈ pool', a ∈ pool ∨ r.sourceOf reference fs = .packed a.path
  delivers : ∀ x, result = .ok x →
    dir.containedJoin reference.member = some x ∧ r.Delivers reference pool fs x fs'
  /-- What is not there is told as such, and nothing else is. -/
  lacks : result = .error (.dependencyNotFound reference.location reference.member) ↔
    r.Lacks reference pool fs
  /-- Otherwise the file system is at fault, or a container. -/
  fails : ∀ e, result = .error e →
    e = .dependencyNotFound reference.location reference.member ∨ (∃ cause, e = .io cause) ∨
      ∃ error, e = .archive error

variable {r reference pool fs}

section Settling
variable (hopened : ∀ a ∈ pool', a ∈ pool ∨ r.sourceOf reference fs = .packed a.path)
include hopened

/-- A member is found and comes to its place. -/
theorem settles_ok (hlacks : ¬r.Lacks reference pool fs)
    (hplace : dir.containedJoin reference.member = some x)
    (hdelivers : r.Delivers reference pool fs x fs') :
    r.Settles reference pool fs dir (.ok x) pool' fs' where
  opened := hopened
  delivers y hy := by
    cases hy
    exact ⟨hplace, hdelivers⟩
  lacks := ⟨fun h => (by cases h), fun h => absurd h hlacks⟩
  fails e he := by cases he

/-- A member is found, but the file system or a container is at fault. -/
theorem settles_error (hlacks : ¬r.Lacks reference pool fs) {e : LaunchError}
    (he : (∃ cause, e = .io cause) ∨ ∃ error, e = .archive error) (dir : Path)
    (fs' : FileSystem) : r.Settles reference pool fs dir (.error e) pool' fs' where
  opened := hopened
  delivers x hx := by cases hx
  lacks := by
    refine ⟨fun h => ?_, fun h => absurd h hlacks⟩
    obtain ⟨_, rfl⟩ | ⟨_, rfl⟩ := he <;> cases h
  fails e' he' := by
    cases he'
    exact .inr he

/-- A member is not found. -/
theorem settles_lacking (hlacks : r.Lacks reference pool fs) (dir : Path) (fs' : FileSystem) :
    r.Settles reference pool fs dir
      (.error (.dependencyNotFound reference.location reference.member)) pool' fs' where
  opened := hopened
  delivers x hx := by cases hx
  lacks := ⟨fun _ => hlacks, fun _ => rfl⟩
  fails e he := by
    cases he
    exact .inl rfl

end Settling

/-- Copying the member of an unpacked sibling settles a reference. -/
theorem copyMember_settles (hwf : fs.WellFormed)
    (hsource : r.sourceOf reference fs = .unpacked source) (dir : Path) :
    (r.copyMember source reference.member dir).Ensures fs fun result fs' =>
      r.Settles reference pool fs dir result pool fs' := by
  have hlacks : ¬r.Lacks reference pool fs := by
    rintro (h | ⟨h, -, -⟩) <;> rw [hsource] at h <;> cases h
  refine (r.copyMember_outcome hwf source reference.member dir).mono fun result fs' h => ?_
  cases result with
  | error e => exact settles_error (fun _ => .inl) hlacks h.1 dir fs'
  | ok x =>
    obtain ⟨hplace, fs₂, loc, n, hready, hnew, hnode, hcontent⟩ := h
    have hbefore :=
      hready.content_of_isFile hwf (mem_of_sourceOf_unpacked hsource).2 hcontent
    have hentry : fs'.entry? loc = some (.file (fs'.inode n).mode (fs'.inode n).bytes) := by
      rw [FileSystem.entry?, hnode, Option.map_some]
    exact settles_ok (fun _ => .inl) hlacks hplace
      (.copied hsource hbefore (find_of_locateName hready.trim hnew.named) hentry)

/-- Unpacking the member of a container settles a reference. -/
theorem unpackMember_settles (hwf : fs.WellFormed) (hpool : ∀ a ∈ pool, fs.HasOpen a.file)
    (hsource : r.sourceOf reference fs = .packed sibling) (hopens : pool.Opens fs sibling a fs₁)
    (hopened : ∀ a ∈ pool', a ∈ pool ∨ r.sourceOf reference fs = .packed a.path) (dir : Path) :
    (r.unpackMember reference dir a).Ensures fs₁ fun result fs' =>
      r.Settles reference pool fs dir result pool' fs' := by
  rw [unpackMember]
  split
  · rename_i record hfind
    have hlacks : ¬r.Lacks reference pool fs := by
      rintro (h | ⟨h, hopens', hnone⟩) <;> rw [hsource] at h <;> cases h
      obtain ⟨rfl, -⟩ := hopens.unique hopens'
      rw [hfind] at hnone
      cases hnone
    refine (a.unpack_outcome (hopens.quiet.wellFormed hwf) record dir r.policy).withError
      fun result fs' h => ?_
    cases result with
    | error e => exact settles_error hopened hlacks (.inr ⟨e, rfl⟩) dir fs'
    | ok x =>
      obtain ⟨-, hplace, fs₂, hready, hwritten⟩ := h
      rw [Archive.name_of_find? hfind] at hplace
      obtain ⟨bytes, loc, e, hpayload, hfound, hdisk, hentry⟩ :=
        hwritten.delivers hready (hopens.hasOpen hpool)
      exact settles_ok hopened hlacks hplace
        (.extracted hsource hopens hfind hpayload hdisk hfound hentry)
  · rename_i hfind
    exact ensures_throw (settles_lacking hopened (.unlisted hsource hopens hfind) dir fs₁)

/-- **A reference is settled**, whichever way its member is found. -/
theorem resolve_settles (hwf : fs.WellFormed) (hpool : ∀ a ∈ pool, fs.HasOpen a.file)
    (hparse : Reference.parse text = .ok reference) (dir : Path) {result : Except LaunchError Path}
    (h : (r.resolve text dir).apply pool fs = ((result, pool'), fs')) :
    r.Settles reference pool fs dir result pool' fs' := by
  rw [resolve_apply r hparse] at h
  cases hsource : r.sourceOf reference fs with
  | unpacked source =>
    rw [fetch_of_unpacked hsource] at h
    cases h
    exact copyMember_settles hwf hsource dir
  | packed sibling =>
    rw [fetch_of_packed hsource] at h
    obtain ⟨a, fs₁, pool₁, hopens, hpool₁, happly⟩ | ⟨⟨e, fs₁, happly⟩, hnone⟩ :=
      Pooled.withArchive_apply pool fs sibling (r.unpackMember reference dir)
    · cases h.symm.trans happly
      exact unpackMember_settles hwf hpool hsource hopens (fun b hb => (hpool₁ b hb).imp_right
        fun hb => by rw [hb]; exact hsource) dir
    · cases h.symm.trans happly
      refine settles_error (fun _ => .inl) ?_ (.inr ⟨e, rfl⟩) dir fs'
      rintro (h | ⟨h, hopens, -⟩) <;> rw [hsource] at h <;> cases h
      exact hnone _ _ hopens
  | nowhere =>
    rw [fetch_of_nowhere hsource] at h
    cases h
    exact settles_lacking (fun _ => .inl) (.nowhere hsource) dir _

/-- **What a reference resolves to.**  A text whose first colon, if there is one, is its first or
last character is refused.  Any other one is a reference.  Its member is looked for in files below
the directory of the program and nowhere else; it is taken from the first of them and comes to its
place with the content that it has there, and if it is in none, that is what the error tells. -/
theorem resolve_finds_member (hwf : fs.WellFormed) (hpool : ∀ a ∈ pool, fs.HasOpen a.file)
    (r : Resolver) (text : String) (dir : Path) {result : Except LaunchError Path}
    (h : (r.resolve text dir).apply pool fs = ((result, pool'), fs')) :
    (result = .error (.invalidReference text) ↔ Reference.IsMalformed text) ∧
    ∀ reference : Reference, reference.IsSpelled text →
      (∀ source ∈ reference.sources r.programDir, source.IsUnder r.programDir) ∧
      (∀ source, r.sourceOf reference fs = .unpacked source ∨
        r.sourceOf reference fs = .packed source → source ∈ reference.sources r.programDir) ∧
      (∀ fs₂ : FileSystem, (∀ source ∈ reference.sources r.programDir,
        fs₂.isFile source = fs.isFile source) →
          r.sourceOf reference fs₂ = r.sourceOf reference fs) ∧
      ((result, pool'), fs') = r.fetch reference dir pool fs ∧
      r.Settles reference pool fs dir result pool' fs' := by
  refine ⟨?_, fun reference hspelled => ⟨fun source => Reference.isUnder_of_mem_sources _,
    fun source => mem_sources_of_sourceOf, fun fs₂ => sourceOf_congr,
    h.symm.trans (resolve_apply r (Reference.parse_of_isSpelled hspelled) dir pool fs),
    resolve_settles hwf hpool (Reference.parse_of_isSpelled hspelled) dir h⟩⟩
  rcases Reference.parse_cases text with ⟨reference, hparse, hformed⟩ | ⟨hparse, hmalformed⟩
  · have hsettles := resolve_settles hwf hpool hparse dir h
    refine ⟨fun he => ?_, fun hmalformed => absurd hmalformed hformed⟩
    obtain he' | ⟨_, he'⟩ | ⟨_, he'⟩ := hsettles.fails _ he <;> cases he'
  · rw [resolve, Pooled.apply_bind, Pooled.apply_onFiles, apply_askResult, hparse] at h
    cases h
    exact ⟨fun _ => hmalformed, fun _ => rfl⟩

end

/-- A sibling that lies unpacked beside a program in `/`, one that is a container with two entries
of a name, and an empty directory. -/
def siblings : FileSystem :=
  ⟨[(["lib"], .directory Mode.directory), (["m", "lib"], .file 0),
    (["out"], .directory Mode.directory), (["c.pkg"], .file 1)],
    [⟨Mode.file, [1]⟩, ⟨Mode.file, (Packing.withDefaultRuntime
      [.plain .script "s" [5], .plain .data "m" [2], .plain .data "m" [3]]).bytes⟩], [], [], 0, []⟩

/-- The general statement for a member that is copied and for one that is unpacked. -/
theorem resolve_finds_member_siblings :
    (∃ pool' fs' loc mode,
      (resolve ⟨⟨"/"⟩, ⟨false⟩⟩ "lib/c:m" ⟨"/out"⟩).apply [] siblings =
        ((.ok ⟨"/out/m"⟩, pool'), fs') ∧
        fs'.find false ⟨"/out/m"⟩ = .ok loc ∧ fs'.entry? loc = some (.file mode [1])) ∧
    ∃ pool' fs' loc mode,
      (resolve ⟨⟨"/"⟩, ⟨false⟩⟩ "c:m" ⟨"/out"⟩).apply [] siblings =
        ((.ok ⟨"/out/m"⟩, pool'), fs') ∧
        fs'.find false ⟨"/out/m"⟩ = .ok loc ∧ fs'.entry? loc = some (.file mode [2]) := by
  have hwf : siblings.WellFormed := by decide +kernel
  constructor
  · have hresult : ((resolve ⟨⟨"/"⟩, ⟨false⟩⟩ "lib/c:m" ⟨"/out"⟩).apply [] siblings).1.1 =
        .ok ⟨"/out/m"⟩ := by decide +kernel
    have hsource : sourceOf ⟨⟨"/"⟩, ⟨false⟩⟩ ⟨"lib/c", "m"⟩ siblings = .unpacked ⟨"/lib/m"⟩ := by
      decide +kernel
    have hcontent : (siblings.content ⟨"/lib/m"⟩).toOption = some [1] := by decide +kernel
    rcases h : (resolve ⟨⟨"/"⟩, ⟨false⟩⟩ "lib/c:m" ⟨"/out"⟩).apply [] siblings with
      ⟨⟨result, pool'⟩, fs'⟩
    obtain rfl : result = .ok ⟨"/out/m"⟩ := by rw [h] at hresult; exact hresult
    obtain ⟨-, hreference⟩ := resolve_finds_member hwf (fun _ ha => by cases ha) _ _ _ h
    obtain ⟨-, -, -, -, hsettles⟩ :=
      hreference ⟨"lib/c", "m"⟩ ⟨by decide, by decide, by decide, by decide⟩
    obtain ⟨-, hdelivers⟩ := hsettles.delivers _ rfl
    cases hdelivers with
    | extracted hpacked => rw [hsource] at hpacked; cases hpacked
    | @copied source bytes loc mode hunpacked hbytes hfind hentry =>
      cases hsource.symm.trans hunpacked
      rw [hbytes] at hcontent
      cases hcontent
      exact ⟨pool', fs', loc, mode, rfl, hfind, hentry⟩
  · have hresult : ((resolve ⟨⟨"/"⟩, ⟨false⟩⟩ "c:m" ⟨"/out"⟩).apply [] siblings).1.1 =
        .ok ⟨"/out/m"⟩ := by decide +kernel
    have hsource : sourceOf ⟨⟨"/"⟩, ⟨false⟩⟩ ⟨"c", "m"⟩ siblings = .packed ⟨"/c.pkg"⟩ := by
      decide +kernel
    obtain ⟨packed, opened, hopened, hentries⟩ : ∃ a fs₁,
        (Archive.load ⟨"/c.pkg"⟩).apply siblings = (.ok a, fs₁) ∧
          ((a.find? "m").bind fun record =>
            ((a.payload record).apply fs₁).1.toOption.bind record.onDisk) =
            some (.file (Archive.unpackedMode .data) [2]) := by decide +kernel
    rcases h : (resolve ⟨⟨"/"⟩, ⟨false⟩⟩ "c:m" ⟨"/out"⟩).apply [] siblings with
      ⟨⟨result, pool'⟩, fs'⟩
    obtain rfl : result = .ok ⟨"/out/m"⟩ := by rw [h] at hresult; exact hresult
    obtain ⟨-, hreference⟩ := resolve_finds_member hwf (fun _ ha => by cases ha) _ _ _ h
    obtain ⟨-, -, -, -, hsettles⟩ :=
      hreference ⟨"c", "m"⟩ ⟨by decide, by decide, by decide, by decide⟩
    obtain ⟨-, hdelivers⟩ := hsettles.delivers _ rfl
    cases hdelivers with
    | copied hunpacked => rw [hsource] at hunpacked; cases hunpacked
    | @extracted sibling a fs₁ record bytes loc e hpacked hopens hfind hpayload hdisk hfound
        hentry =>
      cases hsource.symm.trans hpacked
      cases hopens with
      | pooled hpooled => cases hpooled
      | loaded _ hload =>
        cases hopened.symm.trans hload
        have he : some e = some (.file (Archive.unpackedMode .data) [2]) := by
          simpa [hfind, hpayload, Except.toOption, hdisk] using hentries
        cases he
        exact ⟨pool', fs', loc, _, rfl, hfound, hentry⟩

end Resolver

end Stowage
