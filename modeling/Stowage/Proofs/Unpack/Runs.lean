import Stowage.Proofs.Container.Reading
import Stowage.Proofs.Unpack.Dependency

/-!
# Runs of unpacking

A *run* unpacks entries of archives and resolves references, one after the other, below
one directory.  Nothing is assumed of the archives, of the references or of the order,
and a call may fail.

The containment of writes is a statement about every call of every run
(`run_stays_inside`): what the call has touched lies inside the canonical directory, or
was missing and has become the directory or one of its ancestors.  Everything else is
as it was, after every call and after the run.
-/

namespace Stowage

open FileSystem

/-- A call that unpacks something below a directory, with what it is given. -/
inductive Request where
  /-- An entry of an archive is unpacked. -/
  | entry (a : Archive) (r : Record) (policy : UnpackPolicy)
  /-- A reference is resolved, with some containers open. -/
  | member (resolver : Resolver) (pool : Pool) (text : String)

namespace Request

section

variable [Zlib.Inflater]

/-- The file system that a call leaves, whether it succeeds or fails. -/
def perform (dir : Path) (fs : FileSystem) : Request → FileSystem
  | entry a r policy => ((a.unpack r dir policy).apply fs).2
  | member resolver pool text => ((resolver.resolve text dir).apply pool fs).2

/-- The file system that a run leaves. -/
def performAll (dir : Path) (fs : FileSystem) (requests : List Request) : FileSystem :=
  requests.foldl (perform dir) fs

variable {dir : Path} {fs : FileSystem}

/-- One call touches only what it may. -/
theorem perform_keepsTo (hwf : fs.WellFormed) (dir : Path) (q : Request) :
    fs.KeepsTo dir (q.perform dir fs) := by
  cases q with
  | entry a r policy => exact a.unpack_ensures hwf r dir policy
  | member resolver pool text => exact resolver.resolve_ensures hwf text dir pool

theorem performAll_concat (dir : Path) (fs : FileSystem) (done : List Request) (next : Request) :
    performAll dir fs (done ++ [next]) = next.perform dir (performAll dir fs done) := by
  rw [performAll, List.foldl_append]
  rfl

theorem performAll_wellFormed (hwf : fs.WellFormed) (dir : Path) (requests : List Request) :
    (performAll dir fs requests).WellFormed := by
  induction requests generalizing fs with
  | nil => exact hwf
  | cons q requests ih => exact ih (perform_keepsTo hwf dir q).1

/-- A location that no call of a run may touch holds in the end what it held. -/
theorem performAll_entry? (hwf : fs.WellFormed) {requests : List Request} {loc : Location}
    (h : ∀ done next rest, requests = done ++ next :: rest →
      ¬(performAll dir fs done).MayTouch dir loc) :
    FileSystem.entry? (performAll dir fs requests) loc = fs.entry? loc := by
  induction requests generalizing fs with
  | nil => rfl
  | cons q requests ih =>
    obtain ⟨hwf', hchanged⟩ := perform_keepsTo hwf dir q
    calc FileSystem.entry? (performAll dir fs (q :: requests)) loc
        = FileSystem.entry? (performAll dir (q.perform dir fs) requests) loc := rfl
      _ = FileSystem.entry? (q.perform dir fs) loc := ih hwf' fun done next rest he =>
          h (q :: done) next rest (by rw [he]; rfl)
      _ = fs.entry? loc := hchanged.entry? (h [] q requests rfl)

/-- **Unpacking stays inside.**  Whatever is unpacked below a directory, in whatever
order, from whatever archives and onto whatever files, directories and links: each call
touches only what lies inside the canonical directory, or what it makes of the directory
and its missing ancestors, and what no call may touch is in the end as it was. -/
theorem run_stays_inside (hwf : fs.WellFormed) (dir : Path) (requests : List Request) :
    (∀ done next rest, requests = done ++ next :: rest →
      ChangedOnly ((performAll dir fs done).MayTouch dir) (performAll dir fs done)
        (performAll dir fs (done ++ [next]))) ∧
    ∀ loc, (∀ done next rest, requests = done ++ next :: rest →
        ¬(performAll dir fs done).MayTouch dir loc) →
      FileSystem.entry? (performAll dir fs requests) loc = fs.entry? loc := by
  refine ⟨fun done next rest _ => ?_, fun loc h => performAll_entry? hwf h⟩
  rw [performAll_concat]
  exact (perform_keepsTo (performAll_wellFormed hwf dir done) dir next).2

end

/-- The run that unpacks the entries of an archive in stored order. -/
def inOrder (a : Archive) : List Request := a.records.map fun r => entry a r ⟨false⟩

/-- Two entries whose name leads through a link `up`. -/
def escaping : List PackedEntry := [.plain .data "up/c" [1], .plain .data "up/c" [2]]

/-- A link out of the directory that is unpacked to. -/
def withEscape (files : FileSystem) : FileSystem := files.put ["up", "out"] (.link "..")

/-- The general statement for a run that tries twice to write through such a link, to the
container itself. -/
theorem run_stays_inside_escaping : ∃ a files,
    (Archive.load ⟨"/c"⟩).apply (Archive.packedFiles escaping) = (.ok a, files) ∧
      a.records.map (·.name) = ["up/c", "up/c"] ∧ (withEscape files).WellFormed ∧
      (withEscape files).find true ⟨"/out/up/c"⟩ = .ok ["c"] ∧
      (∀ done next rest, inOrder a = done ++ next :: rest →
        ChangedOnly ((performAll ⟨"/out"⟩ (withEscape files) done).MayTouch ⟨"/out"⟩)
          (performAll ⟨"/out"⟩ (withEscape files) done)
          (performAll ⟨"/out"⟩ (withEscape files) (done ++ [next]))) ∧
      ∀ loc, (∀ done next rest, inOrder a = done ++ next :: rest →
          ¬(performAll ⟨"/out"⟩ (withEscape files) done).MayTouch ⟨"/out"⟩ loc) →
        FileSystem.entry? (performAll ⟨"/out"⟩ (withEscape files) (inOrder a)) loc =
          FileSystem.entry? (withEscape files) loc := by
  obtain ⟨a, files, hload, hnames, hwf, hleads⟩ : Archive.OpensTo escaping fun a files =>
      a.records.map (·.name) = ["up/c", "up/c"] ∧ (withEscape files).WellFormed ∧
        (withEscape files).find true ⟨"/out/up/c"⟩ = .ok ["c"] := by decide +kernel
  exact ⟨a, files, hload, hnames, hwf, hleads, run_stays_inside hwf ⟨"/out"⟩ (inOrder a)⟩

end Request
end Stowage
