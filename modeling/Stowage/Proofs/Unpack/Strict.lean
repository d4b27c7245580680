import Stowage.Proofs.Unpack.Extracting
import Stowage.Proofs.Unpack.Runs

/-!
# The strict policy

Under the strict policy nothing is replaced.  Whatever has been there before a call is there
after it, be the call the unpacking of an entry or the resolution of a reference, and whether
it succeeds or fails.

So what a path leads to stays what it is while more is unpacked, for the nodes on the way are
still there, and a node that comes only later has not been on it.  Hence an extraction that
succeeds is faithful: each regular file of the container can be read, with its own content,
where its name leads, whatever links and second names the container has.
-/

namespace Stowage

open FileSystem

variable {τ : Type} {fs : FileSystem}

namespace Request

/-- Nothing is replaced by the call. -/
def IsStrict : Request → Prop
  | entry _ _ policy => policy.strict = true
  | member resolver _ _ => resolver.policy.strict = true

variable [Zlib.Inflater]

/-- The file system that some calls leave, each of which is given a directory. -/
def performEach (fs : FileSystem) (calls : List (Path × Request)) : FileSystem :=
  calls.foldl (fun fs call => call.2.perform call.1 fs) fs

/-- One strict call keeps everything. -/
theorem perform_retains (hwf : fs.WellFormed) (dir : Path) {q : Request} (hq : q.IsStrict) :
    RetainsAll fs (q.perform dir fs) := by
  cases q with
  | entry a r policy => exact (a.unpack_puts hwf r dir policy).1.1 hq
  | member resolver pool text => exact (resolver.resolve_puts hwf text dir pool).1.1 hq

theorem performEach_wellFormed (hwf : fs.WellFormed) (calls : List (Path × Request)) :
    (performEach fs calls).WellFormed := by
  induction calls generalizing fs with
  | nil => exact hwf
  | cons call rest ih => exact ih (perform_keepsTo hwf call.1 call.2).1

end Request

namespace Extraction.Job

variable {j : Job τ}

/-- **A strict extraction that succeeds** loses nothing from one entry to a later one. -/
theorem retains_of_strict [Zlib.Inflater] (h : j.Succeeds) (hwf : j.world.files.WellFormed)
    (hs : j.IsStrict) {i k : Nat} (hik : i ≤ k) : RetainsAll (j.files i) (j.files k) := by
  induction hik with
  | refl => exact .refl _
  | @step k hik ih =>
    refine ih.trans ?_
    cases he : j.archive.entries[k]? with
    | none => rw [files_succ_of_none he]; exact .refl _
    | some e => exact (files_succ h (wellFormed h hwf k) he).2.1 hs

/-- **Strict unpacking keeps and is faithful.**  Whatever calls are made under the strict
policy, and whether they succeed or fail: what has been there before a call, at whatever
location, is there after it, with the same content, target and permissions.  And when all
entries of a container have been extracted, then every regular file of it can be read where
its name leads, and what is read is the payload of the entry. -/
theorem strict_keeps_and_is_faithful [Zlib.Inflater] (hwf : fs.WellFormed) :
    (∀ calls : List (Path × Request), (∀ call ∈ calls, call.2.IsStrict) →
      ∀ done next rest, calls = done ++ next :: rest → ∀ loc e,
        FileSystem.entry? (Request.performEach fs done) loc = some e →
        FileSystem.entry? (Request.performEach fs (done ++ [next])) loc = some e) ∧
    ∀ j : Job τ, j.world.files = fs → fs.HasOpen j.archive.file → j.IsStrict → j.Succeeds →
      ∀ r, .ok r ∈ j.archive.entries → r.kind.isRegular = true →
        ∃ target bytes, j.dir.containedJoin r.name = some target ∧
          ((j.archive.payload r).apply fs).1 = .ok bytes ∧
          ((j.archive.payload r).apply j.run.2.files).1 = .ok bytes ∧
          j.run.2.files.content target = .ok bytes := by
  constructor
  · intro calls hstrict done next rest hcalls loc e he
    have hwf' := Request.performEach_wellFormed hwf done
    have hnext : next.2.IsStrict := hstrict next (by rw [hcalls]; simp)
    have hperform : Request.performEach fs (done ++ [next]) =
        next.2.perform next.1 (Request.performEach fs done) := by
      rw [Request.performEach, List.foldl_append]
      rfl
    rw [hperform]
    exact (Request.perform_retains hwf' next.1 hnext).kept_entry hwf' id he
  · rintro j rfl hopen hs h r hr hkind
    obtain ⟨i, he⟩ := List.mem_iff_getElem?.mp hr
    obtain ⟨target, hjoin, hunpacked⟩ := unpackedTo_succ h hwf hopen he hkind
    obtain ⟨hi, -⟩ := List.getElem?_eq_some_iff.mp he
    have hend : j.files j.archive.entries.length = j.run.2.files := by
      rw [files, run_eq_after (Nat.le_refl _)]
    have hlast := hunpacked.retained (retains_of_strict h hwf hs (Nat.succ_le_of_lt hi))
    rw [hend] at hlast
    obtain ⟨bytes, hpayload, hcontent⟩ := hlast.content
    refine ⟨target, bytes, hjoin, ?_, hpayload, hcontent⟩
    rw [Archive.payload_eq_ok] at hpayload ⊢
    rwa [← hend, decoding_files h hwf hopen] at hpayload

/-- A file in a directory, a link to the directory, and a file under the link. -/
def linked : List PackedEntry :=
  [.plain .data "d/a" [1], .plain .symlink "l" (Text.encode "d"), .plain .data "l/b" [2]]

/-- The strict extraction of an archive to a directory that is not there. -/
def afresh (a : Archive) (files : FileSystem) : Job Unit where
  archive := a
  dir := ⟨"/new"⟩
  policy := ⟨true⟩
  resolver := ⟨⟨"/"⟩, ⟨true⟩⟩
  hear _ := id
  pool := []
  world := ⟨files, .empty, ()⟩

/-- The general statement for a container whose link gives a directory a second name. -/
theorem strict_keeps_and_is_faithful_linked : ∃ a files,
    (Archive.load ⟨"/c"⟩).apply (Archive.packedFiles linked) = (.ok a, files) ∧
      (∀ done next rest, [((⟨"/new"⟩ : Path), Request.member ⟨⟨"/"⟩, ⟨true⟩⟩ [] "c:d/a")] =
          done ++ next :: rest → ∀ loc e,
        FileSystem.entry? (Request.performEach files done) loc = some e →
        FileSystem.entry? (Request.performEach files (done ++ [next])) loc = some e) ∧
      (afresh a files).Succeeds ∧
      ∃ r bytes, .ok r ∈ a.entries ∧ r.name = "l/b" ∧
        ((a.payload r).apply (afresh a files).run.2.files).1 = .ok bytes ∧
        (afresh a files).run.2.files.content ⟨"/new/l/b"⟩ = .ok bytes := by
  obtain ⟨a, files, hload, hwf, hcount, hthere, hplace⟩ : Archive.OpensTo linked fun a files =>
      files.WellFormed ∧ (afresh a files).run.1.1.toOption = some 3 ∧
        (∃ e ∈ a.entries, e.toOption.any fun r => r.kind.isRegular && r.name == "l/b") ∧
        (afresh a files).dir.containedJoin "l/b" = some ⟨"/new/l/b"⟩ := by decide +kernel
  have hsucceeds : (afresh a files).Succeeds := ⟨3, Result.toOption_eq_some.mp hcount⟩
  obtain ⟨e, he, hin⟩ := hthere
  obtain ⟨r, rfl, hkind, hname⟩ : ∃ r, e = .ok r ∧ r.kind.isRegular = true ∧ r.name = "l/b" := by
    cases e with
    | error m => cases hin
    | ok r => exact ⟨r, rfl, by simpa [Except.toOption] using hin⟩
  obtain ⟨hkeeps, hfaithful⟩ := strict_keeps_and_is_faithful (τ := Unit) hwf
  refine ⟨a, files, hload, hkeeps _ (by simp [Request.IsStrict]), hsucceeds, ?_⟩
  obtain ⟨target, bytes, hjoin, -, hpayload, hcontent⟩ :=
    hfaithful (afresh a files) rfl (Archive.hasOpen_of_load hload) ⟨rfl, rfl⟩ hsucceeds r he hkind
  rw [hname, hplace] at hjoin
  cases hjoin
  exact ⟨r, bytes, he, hname, hpayload, hcontent⟩

end Extraction.Job

end Stowage
