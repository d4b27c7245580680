import Stowage.Proofs.Container.Cuts
import Stowage.Proofs.Unpack.Placing

/-!
# What unpacking leaves

Unpacking an entry is all or nothing (`Archive.unpack_all_or_nothing`).  If it succeeds, the
place holds what the entry is on disk, which is its payload.  If it fails, no file is left half
written, and nothing is lost but what stood at the place (`Undone`).

One thing can be new at the place after a failure: a directory, when the path of the output
directory goes through the place and back by `..` (`Archive.unpack_leaves_directory`).

What is refused has mostly been refused before anything is removed.  The exception is a link
whose target leads outside: its target is looked at when the place has been cleared
(`Archive.unpack_refusal_keeps`, `Archive.refused_link_replaces`).
-/

namespace Stowage

open FileSystem Result Call

variable {fs fs' : FileSystem} {dir x : Path} {name : String} {loc : Location} {a : Archive}
  {r : Record} {policy : UnpackPolicy} {fault : ArchiveFault}

/-- What an entry is on disk, given its payload: a link, or a file with the permissions of its
kind. -/
def Record.onDisk (r : Record) (payload : Bytes) : Option FileEntry :=
  if r.kind = .symlink then
    (Text.decode? payload).map fun text => .link (Archive.trimZeros text)
  else some (.file (Archive.unpackedMode r.kind) payload)

/-- Whether a fault says that something may not be put on disk, or not at that place. -/
def ArchiveFault.isRefusal : ArchiveFault → Bool
  | notExtractable _ | unsafeName _ | wouldOverwrite _ => true
  | _ => false

/-! ## After a failure -/

namespace FileSystem

/-- What is new are directories, also as seen from outside. -/
theorem AddsDirectories.fresh_entry (h : AddsDirectories fs fs') {e : FileEntry}
    (he : fs'.entry? loc = some e) (hfree : fs.entry? loc = none) :
    ∃ mode, e = .directory mode := by
  obtain ⟨node, hnode, rfl⟩ := Option.map_eq_some_iff.mp he
  obtain ⟨mode, rfl⟩ := h.fresh loc node hnode (Option.map_eq_none_iff.mp hfree)
  exact ⟨mode, rfl⟩

/-- A location is that of a file or a link to which a name leads from `dir`, once the directories
on the way have been made. -/
def StandsAt (fs : FileSystem) (dir : Path) (name : String) (loc : Location) : Prop :=
  ∃ x, dir.containedJoin name = some x ∧ (fs.preparedFor dir x).find false x = .ok loc ∧
    fs.isDirectoryAt loc = false

/-- **What a call leaves that has failed** to put something under a name: nothing is lost but
what stood there, what is new are directories, and what the name leads to is none that was made
for it. -/
structure Undone (fs : FileSystem) (dir : Path) (name : String) (fs' : FileSystem) : Prop where
  kept : ∀ loc e, fs.entry? loc = some e →
    fs'.entry? loc = some e ∨ fs'.entry? loc = none ∧ fs.StandsAt dir name loc
  fresh : ∀ loc e, fs'.entry? loc = some e → fs.entry? loc = none → ∃ mode, e = .directory mode
  target : ∀ x loc, dir.containedJoin name = some x → fs'.find false x = .ok loc →
    fs'.entry? loc = fs.entry? loc ∨ fs.MadeFor dir ((makeDirAll dir).apply fs).2 loc

namespace Undone

theorem refl (fs : FileSystem) (dir : Path) (name : String) : Undone fs dir name fs where
  kept _ _ he := .inl he
  fresh loc e he hfree := by
    rw [he] at hfree
    cases hfree
  target _ _ _ _ := .inl rfl

end Undone
end FileSystem

/-- Where directories have been made, nothing is lost. -/
theorem FileSystem.Prepared.undone (hwf : fs.WellFormed)
    (hplace : dir.containedJoin name = some x) (h : fs.Prepared dir x fs') :
    Undone fs dir name fs' where
  kept loc e he := .inl (h.kept_entry hwf id he)
  fresh _ _ := h.fresh_entry
  target y loc hy hfind := by
    cases hplace.symm.trans hy
    exact h.target loc (locateName_of_find (isTrim_of_containedJoin hplace) hfind)

namespace Cleared
variable {strict : Bool}

theorem nodesIn (h : Cleared fs x strict fs') : NodesIn fs' fs := by
  obtain rfl | ⟨-, loc, -, -, rfl⟩ := h
  · exact .refl fs'
  · exact nodesIn_cut fs loc

/-- What is lost is what stood at the place, and it was no directory. -/
theorem kept_or_stood (h : Cleared fs x strict fs') (hwf : fs.WellFormed) {e : FileEntry}
    (he : fs.entry? loc = some e) : fs'.entry? loc = some e ∨ fs'.entry? loc = none ∧
      strict = false ∧ fs.locateName x = .ok (.present loc) ∧ fs.isDirectoryAt loc = false := by
  obtain rfl | ⟨hstrict, gone, hgone, hdir, rfl⟩ := h
  · exact .inl he
  by_cases hloc : loc = gone
  · subst hloc
    refine .inr ⟨?_, hstrict, hgone, hdir⟩
    cases loc with
    | nil => cases hdir
    | cons n outer =>
      rw [FileSystem.entry?, node?_cut_of_within fs (Location.within_refl _), Option.map_none]
  · have hretains : RetainsBut gone fs (fs.cut gone) := (Retains.refl fs).cut hwf hdir (.inl rfl)
    exact .inl (hretains.kept_entry hwf hloc he)

end Cleared

/-- A directory that was there is there when more directories have been made. -/
theorem FileSystem.Prepared.isDirectoryAt_of (h : fs.Prepared dir x fs')
    (hdir : fs'.isDirectoryAt loc = false) : fs.isDirectoryAt loc = false := by
  rw [← Bool.not_eq_true, isDirectoryAt_iff] at hdir ⊢
  exact fun ⟨mode, hmode⟩ => hdir ⟨mode, h.nodesIn _ _ hmode⟩

namespace Readied
variable {strict : Bool} {fs₂ : FileSystem} (h : Readied fs dir x strict fs₂)
  (hplace : dir.containedJoin name = some x)
include h hplace

/-- What is lost in making a place ready is what stood there. -/
theorem kept_or_stood (hwf : fs.WellFormed) {e : FileEntry} (he : fs.entry? loc = some e) :
    fs₂.entry? loc = some e ∨
      fs₂.entry? loc = none ∧ strict = false ∧ fs.StandsAt dir name loc := by
  have hkept := h.prepared.kept_entry hwf id he
  refine (h.cleared.kept_or_stood h.prepared.wellFormed hkept).imp_right ?_
  rintro ⟨hgone, hstrict, hloc, hdir⟩
  exact ⟨hgone, hstrict, x, hplace, find_of_locateName h.trim hloc,
    h.prepared.isDirectoryAt_of hdir⟩

/-- **Where a place has been made ready and nothing was put there**, only what stood there is
lost. -/
theorem undone (hwf : fs.WellFormed) (hintact : Intact fs₂ fs') : Undone fs dir name fs' where
  kept loc e he := by
    rw [hintact.entry? h.wellFormed]
    exact (h.kept_or_stood hplace hwf he).imp_right fun ⟨hgone, _, hstood⟩ => ⟨hgone, hstood⟩
  fresh loc e he hfree := by
    rw [hintact.entry? h.wellFormed] at he
    obtain ⟨node, hnode, rfl⟩ := Option.map_eq_some_iff.mp he
    obtain ⟨mode, rfl⟩ := h.prepared.fresh loc node (h.cleared.nodesIn loc node hnode)
      (Option.map_eq_none_iff.mp hfree)
    exact ⟨mode, rfl⟩
  target y loc hy hfind := by
    cases hplace.symm.trans hy
    have hloc := locateName_of_find h.trim hfind
    rw [hintact.locateName] at hloc
    exact absurd hloc (h.absent loc)

end Readied

namespace Archive

section

variable [Zlib.Inflater]

/-- **An entry that cannot be unpacked** leaves nothing behind but directories. -/
theorem Fails.undone (h : a.Fails r dir policy fs fault fs') (hwf : fs.WellFormed) :
    Undone fs dir r.name fs' := by
  cases h with
  | kind => exact .refl fs dir r.name
  | name => exact .refl fs dir r.name
  | unready hplace _ hprepared => exact hprepared.undone hwf hplace
  | unwritten hplace hready _ hintact => exact hready.undone hplace hwf hintact

/-- A payload that cannot be decoded is no refusal. -/
theorem isRefusal_of_decoding (h : (a.decoding r fs).result = .error fault) :
    fault.isRefusal = false := by
  rw [decoding] at h
  split at h
  · cases h
    rfl
  · obtain rfl | ⟨what, rfl⟩ := isOfPayload_of_decodeFrom h <;> rfl

/-- What is refused when the place is ready is the target of a link. -/
theorem WriteFault.leaves_of_isRefusal (h : a.WriteFault r fault) (hr : fault.isRefusal = true) :
    r.kind = .symlink ∧ ∃ target : String, fault = .unsafeName s!"{r.name} -> {target}" := by
  cases h with
  | io => cases hr
  | payload hfault => rw [isRefusal_of_decoding hfault] at hr; cases hr
  | notText => cases hr
  | leaves target hkind => exact ⟨hkind, target, rfl⟩

/-- What has been written is found at its place, and it is what the payload says. -/
theorem Written.onDisk (h : a.Written r x fs fs') (hx : x.IsTrim) (hopen : fs.HasOpen a.file) :
    ∃ bytes loc e, ((a.payload r).apply fs).1 = .ok bytes ∧ fs'.find false x = .ok loc ∧
      r.onDisk bytes = some e ∧ fs'.entry? loc = some e := by
  cases h with
  | @file loc n hkind hnew hpayload =>
    obtain ⟨count, hresult, hinode⟩ := hpayload hopen
    refine ⟨_, loc, _, payload_eq_ok.mpr ⟨count, hresult, rfl⟩, find_of_locateName hx hnew.named,
      if_neg hkind, ?_⟩
    rw [FileSystem.entry?, hnew.node]
    simp only [Option.map_some, hinode]
  | @link loc bytes text hkind hnew hpayload htext hnode =>
    refine ⟨bytes, loc, .link (trimZeros text), hpayload, find_of_locateName hx hnew.named, ?_, ?_⟩
    · rw [Record.onDisk, if_pos hkind, htext, Option.map_some]
    · rw [FileSystem.entry?, hnode, Option.map_some]

/-- The payload is what it was before the place was made ready. -/
theorem Written.delivers {strict : Bool} {fs₂ : FileSystem} (h : a.Written r x fs₂ fs')
    (hready : Readied fs dir x strict fs₂) (hopen : fs.HasOpen a.file) :
    ∃ bytes loc e, ((a.payload r).apply fs).1 = .ok bytes ∧ fs'.find false x = .ok loc ∧
      r.onDisk bytes = some e ∧ fs'.entry? loc = some e := by
  obtain ⟨gone, hretains⟩ := hready.retains
  obtain ⟨bytes, loc, e, hpayload, hrest⟩ := h.onDisk hready.trim (hopen.retained hretains)
  refine ⟨bytes, loc, e, ?_, hrest⟩
  rw [← hpayload, payload_result, payload_result, decoding_retained hopen hretains]

/-- **Unpacking is all or nothing**, and agrees with what is extracted to memory.  If it
succeeds, the path is that of the name, and what stands there is the payload: a link to it, or a
file with the permissions of its kind.  If it fails, the error names the entry with one cause, no
file is left half written, and nothing is lost but what stood at the place (`Undone`).  What
cannot be extracted to memory cannot be unpacked. -/
theorem unpack_all_or_nothing (hwf : fs.WellFormed) (hopen : fs.HasOpen a.file) (r : Record)
    (dir : Path) (policy : UnpackPolicy) :
    (∀ x fs', (a.unpack r dir policy).apply fs = (.ok x, fs') →
      r.kind.isFileLike = true ∧ dir.containedJoin r.name = some x ∧ ∃ bytes loc e,
        ((a.payload r).apply fs).1 = .ok bytes ∧ fs'.find false x = .ok loc ∧
        r.onDisk bytes = some e ∧ fs'.entry? loc = some e) ∧
    (∀ e fs', (a.unpack r dir policy).apply fs = (.error e, fs') →
      e.entry = some r.name ∧ Undone fs dir r.name fs') ∧
    ∀ e, ((a.payload r).apply fs).1 = .error e →
      ∃ e' fs', (a.unpack r dir policy).apply fs = (.error e', fs') := by
  have houtcome := a.unpack_outcome hwf r dir policy
  unfold Call.Ensures at houtcome
  have hsucceeds (x fs') (happly : (a.unpack r dir policy).apply fs = (.ok x, fs')) :
      r.kind.isFileLike = true ∧ dir.containedJoin r.name = some x ∧ ∃ bytes loc e,
        ((a.payload r).apply fs).1 = .ok bytes ∧ fs'.find false x = .ok loc ∧
        r.onDisk bytes = some e ∧ fs'.entry? loc = some e := by
    rw [happly] at houtcome
    obtain ⟨hkind, hplace, fs₂, hready, hwritten⟩ := houtcome
    exact ⟨hkind, hplace, hwritten.delivers hready hopen⟩
  refine ⟨hsucceeds, fun e fs' happly => ?_, fun e hpayload => ?_⟩
  · rw [happly] at houtcome
    exact ⟨houtcome.1, houtcome.2.undone hwf⟩
  · rcases happly : (a.unpack r dir policy).apply fs with ⟨e' | x, fs'⟩
    · exact ⟨e', fs', rfl⟩
    · obtain ⟨-, -, bytes, _, _, hok, -⟩ := hsucceeds x fs' happly
      rw [hpayload] at hok
      cases hok

end

/-- A directory with a link in it. -/
def withLink (files : FileSystem) : FileSystem := files.put ["x", "out"] (.link "y")

/-- An entry, and another one of its name whose payload is no stream. -/
def damaged : List PackedEntry := [.plain .data "x" [1], ⟨.data, "x", [1], true, 1⟩]

/-- The general statement for two entries, each of which is unpacked where a link stands. -/
theorem unpack_all_or_nothing_damaged : ∃ a files first second fs' e fs'',
    (load ⟨"/c"⟩).apply (packedFiles damaged) = (.ok a, files) ∧ a.records = [first, second] ∧
      (a.unpack first ⟨"/out"⟩ ⟨false⟩).apply (withLink files) = (.ok ⟨"/out/x"⟩, fs') ∧
      (∃ loc, fs'.find false ⟨"/out/x"⟩ = .ok loc ∧ fs'.entry? loc = some (.file 0o600 [1])) ∧
      (a.unpack second ⟨"/out"⟩ ⟨false⟩).apply (withLink files) = (.error e, fs'') ∧
      e.entry = some "x" ∧ Undone (withLink files) ⟨"/out"⟩ "x" fs'' := by
  obtain ⟨a, files, hload, hwf, hrecords, hresults⟩ : OpensTo damaged fun a files =>
      (withLink files).WellFormed ∧
        (a.records.map fun r => (r.name, r.kind)) = [("x", .data), ("x", .data)] ∧
        (a.records.map fun r => (((a.payload r).apply (withLink files)).1.toOption,
          ((a.unpack r ⟨"/out"⟩ ⟨false⟩).apply (withLink files)).1.toOption)) =
            [(some [1], some ⟨"/out/x"⟩), (none, none)] := by decide +kernel
  simp only [List.map_eq_cons_iff, List.map_eq_nil_iff, Prod.mk.injEq] at hrecords
  obtain ⟨first, _, hrecords, ⟨hname, hkind⟩, second, _, rfl, ⟨hname', -⟩, rfl⟩ := hrecords
  have hopen : (withLink files).HasOpen a.file :=
    let ⟨f, hf, hn⟩ := hasOpen_of_load hload
    ⟨f, hf, hn⟩
  obtain ⟨hdone, -, -⟩ := unpack_all_or_nothing hwf hopen first ⟨"/out"⟩ ⟨false⟩
  obtain ⟨-, hfails, -⟩ := unpack_all_or_nothing hwf hopen second ⟨"/out"⟩ ⟨false⟩
  simp only [hrecords, List.map_cons, List.map_nil, List.cons.injEq, Prod.mk.injEq] at hresults
  obtain ⟨⟨hpayload, hunpack⟩, ⟨-, hunpack'⟩, -⟩ := hresults
  rcases hfirst : (a.unpack first ⟨"/out"⟩ ⟨false⟩).apply (withLink files) with ⟨_ | x, fs'⟩
  · rw [hfirst] at hunpack
    cases hunpack
  rcases hsecond : (a.unpack second ⟨"/out"⟩ ⟨false⟩).apply (withLink files) with ⟨e | _, fs''⟩
  rotate_left
  · rw [hsecond] at hunpack'
    cases hunpack'
  rw [hfirst] at hunpack
  cases hunpack
  obtain ⟨-, -, bytes, loc, entry, hbytes, hfind, hdisk, hentry⟩ := hdone _ _ hfirst
  rw [hbytes] at hpayload
  cases hpayload
  rw [Record.onDisk, hkind] at hdisk
  cases hdisk
  obtain ⟨hentry', hundone⟩ := hfails _ _ hsecond
  rw [hname'] at hentry' hundone
  exact ⟨a, files, first, second, fs', e, fs'', hload, hrecords, hfirst, ⟨loc, hfind, hentry⟩,
    hsecond, hentry', hundone⟩

/-- **Making a directory can put another one under the path.**  The directory is told by a path
that goes on with `x` and back.  So there is a directory `x` when an entry of that name is to be
put beside it, which fails. -/
theorem unpack_leaves_directory : ∃ a files r e fs',
    (load ⟨"/c"⟩).apply (packedFiles [.plain .data "x" [1]]) = (.ok a, files) ∧
      a.records = [r] ∧ Path.containedJoin ⟨"/out/x/.."⟩ r.name = some ⟨"/out/x/../x"⟩ ∧
      files.find false ⟨"/out/x/../x"⟩ = .error (.os .notFound) ∧
      (a.unpack r ⟨"/out/x/.."⟩ ⟨false⟩).apply files = (.error e, fs') ∧
      fs'.find false ⟨"/out/x/../x"⟩ = .ok ["x", "out"] ∧
      files.entry? ["x", "out"] = none ∧ fs'.isDirectoryAt ["x", "out"] = true := by
  obtain ⟨a, files, hload, hfind, hfree, hlength, hrecords⟩ : OpensTo [.plain .data "x" [1]]
      fun a files => files.find false ⟨"/out/x/../x"⟩ = .error (.os .notFound) ∧
        files.entry? ["x", "out"] = none ∧ a.records.length = 1 ∧ ∀ r ∈ a.records,
          Path.containedJoin ⟨"/out/x/.."⟩ r.name = some ⟨"/out/x/../x"⟩ ∧
          ((a.unpack r ⟨"/out/x/.."⟩ ⟨false⟩).apply files).1.toOption = none ∧
          ((a.unpack r ⟨"/out/x/.."⟩ ⟨false⟩).apply files).2.find false ⟨"/out/x/../x"⟩ =
            .ok ["x", "out"] ∧
          ((a.unpack r ⟨"/out/x/.."⟩ ⟨false⟩).apply files).2.isDirectoryAt ["x", "out"] = true := by
    decide +kernel
  obtain ⟨r, hr⟩ := List.length_eq_one_iff.mp hlength
  obtain ⟨hjoin, hfails, hfind', hdir⟩ := hrecords r (by simp [hr])
  rcases happly : (a.unpack r ⟨"/out/x/.."⟩ ⟨false⟩).apply files with ⟨e | x, fs'⟩
  · rw [happly] at hfind' hdir
    exact ⟨a, files, r, e, fs', hload, hr, hjoin, hfind, happly, hfind', hfree, hdir⟩
  · rw [happly] at hfails
    cases hfails

/-- **What a refusal leaves.**  What is refused changes nothing that exists, and adds directories
at most, with one exception: a link whose target leads outside is refused when what stood at its
place has been removed. -/
theorem unpack_refusal_keeps [Zlib.Inflater] (hwf : fs.WellFormed) {e : ArchiveError}
    (h : (a.unpack r dir policy).apply fs = (.error e, fs')) (hrefused : e.fault.isRefusal = true) :
    (∀ loc new, fs'.entry? loc = some new → fs.entry? loc = none → ∃ mode, new = .directory mode) ∧
    ∀ loc old, fs.entry? loc = some old → fs'.entry? loc = some old ∨
      fs'.entry? loc = none ∧ fs.StandsAt dir r.name loc ∧ r.kind = .symlink ∧
        policy.strict = false ∧
        ∃ target : String, e.fault = .unsafeName s!"{r.name} -> {target}" := by
  have houtcome := a.unpack_outcome hwf r dir policy
  unfold Call.Ensures at houtcome
  rw [h] at houtcome
  obtain ⟨-, hfails⟩ := houtcome
  refine ⟨(hfails.undone hwf).fresh, fun loc old hold => ?_⟩
  generalize e.fault = fault at hfails hrefused
  cases hfails with
  | kind => exact .inl hold
  | name => exact .inl hold
  | unready hplace _ hprepared => exact .inl (hprepared.kept_entry hwf id hold)
  | unwritten hplace hready hfault hintact =>
    rw [hintact.entry? hready.wellFormed]
    refine (hready.kept_or_stood hplace hwf hold).imp_right ?_
    rintro ⟨hgone, hstrict, hstood⟩
    exact ⟨hgone, hstood, (hfault.leaves_of_isRefusal hrefused).1, hstrict,
      (hfault.leaves_of_isRefusal hrefused).2⟩

/-- The general statement for an entry that the strict policy refuses. -/
theorem unpack_refusal_keeps_standing : ∃ a files r e fs',
    (load ⟨"/c"⟩).apply (packedFiles [.plain .data "x" [1]]) = (.ok a, files) ∧
      a.records = [r] ∧ (a.unpack r ⟨"/out"⟩ ⟨true⟩).apply (withLink files) = (.error e, fs') ∧
      e.fault = .wouldOverwrite ⟨"/out/x"⟩ ∧ fs'.entry? ["x", "out"] = some (.link "y") := by
  obtain ⟨a, files, hload, hwf, hlength, hrecords⟩ : OpensTo [.plain .data "x" [1]]
      fun a files => (withLink files).WellFormed ∧ a.records.length = 1 ∧ ∀ r ∈ a.records,
        ((a.unpack r ⟨"/out"⟩ ⟨true⟩).apply (withLink files)).1 =
          .error ⟨some "x", .wouldOverwrite ⟨"/out/x"⟩⟩ := by decide +kernel
  obtain ⟨r, hr⟩ := List.length_eq_one_iff.mp hlength
  have hresult := hrecords r (by simp [hr])
  rcases happly : (a.unpack r ⟨"/out"⟩ ⟨true⟩).apply (withLink files) with ⟨_, fs'⟩
  rw [happly] at hresult
  cases hresult
  obtain ⟨-, hkept⟩ := unpack_refusal_keeps hwf happly rfl
  refine ⟨a, files, r, _, fs', hload, hr, happly, rfl, ?_⟩
  rcases hkept ["x", "out"] (.link "y") rfl with hkept | ⟨-, -, -, hstrict, -⟩
  · exact hkept
  · cases hstrict

/-- **A link that is refused has replaced what stood at its place.**  Its target leads outside,
which is found out when the place is clear. -/
theorem refused_link_replaces : ∃ a files r e fs',
    (load ⟨"/c"⟩).apply (packedFiles [.plain .symlink "x" [0x2e, 0x2e, 0x2f, 0x73]]) =
        (.ok a, files) ∧ a.records = [r] ∧
      (a.unpack r ⟨"/out"⟩ ⟨false⟩).apply (withLink files) = (.error e, fs') ∧
      e.fault = .unsafeName "x -> ../s" ∧ e.fault.isRefusal = true ∧
      FileSystem.entry? (withLink files) ["x", "out"] = some (.link "y") ∧
      fs'.entry? ["x", "out"] = none := by
  obtain ⟨a, files, hload, hlength, hrecords⟩ :
      OpensTo [.plain .symlink "x" [0x2e, 0x2e, 0x2f, 0x73]] fun a files =>
        a.records.length = 1 ∧ ∀ r ∈ a.records,
          ((a.unpack r ⟨"/out"⟩ ⟨false⟩).apply (withLink files)).1 =
            .error ⟨some "x", .unsafeName "x -> ../s"⟩ ∧
          FileSystem.entry? ((a.unpack r ⟨"/out"⟩ ⟨false⟩).apply (withLink files)).2
            ["x", "out"] = none := by
    decide +kernel
  obtain ⟨r, hr⟩ := List.length_eq_one_iff.mp hlength
  obtain ⟨hresult, hgone⟩ := hrecords r (by simp [hr])
  rcases happly : (a.unpack r ⟨"/out"⟩ ⟨false⟩).apply (withLink files) with ⟨_, fs'⟩
  rw [happly] at hresult hgone
  cases hresult
  exact ⟨a, files, r, _, fs', hload, hr, happly, rfl, rfl, rfl, hgone⟩

end Archive

end Stowage
