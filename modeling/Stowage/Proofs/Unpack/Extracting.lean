import Stowage.Launch.Extraction
import Stowage.Proofs.Launch.Effects
import Stowage.Proofs.Unpack.Placing

/-!
# Extracting entry by entry

An extraction is looked at as a `Job`: what is extracted, where to, under which policies, and
the world that it starts in.  `Job.after k` is how things are when the first `k` entries have
been extracted, as the program would have it, had the container no more entries.

A job that succeeds goes from `j.files k` to `j.files (k + 1)` by extracting entry `k`
(`Extracts`), or not at all if that entry need not be on disk (`Job.files_succ`).
-/

namespace Stowage

open FileSystem Result

/-- Whether the entries of a kind are regular files. -/
def EntryKind.isRegular : EntryKind → Bool
  | binary | data | zipFile => true
  | _ => false

theorem EntryKind.isRegular_ne {kind : EntryKind} (h : kind.isRegular = true) :
    kind.isExtractable = true ∧ kind ≠ .dependency ∧ kind ≠ .symlink := by
  cases kind <;> simp_all [isRegular, isExtractable]

/-- Where an entry is put below a directory: its name says it, or, for a dependency, the name
of the member that it refers to. -/
def Record.placeUnder (r : Record) (dir : Path) : Option Path :=
  if r.kind = .dependency then
    match Reference.parse r.name with
    | .ok reference => dir.containedJoin reference.member
    | .error _ => none
  else dir.containedJoin r.name

namespace Extraction

variable {τ : Type} {a : Archive} {dir x : Path} {policy : UnpackPolicy} {resolver : Resolver}
  {r : Record} {pool pool' : Pool} {fs fs' : FileSystem} {loc : Location}

/-! ## One entry -/

variable [Zlib.Inflater]

/-- **An entry is extracted** to its place.  Nothing else is lost, and what is put there is
the payload, if the entry is a regular file. -/
structure Extracts (a : Archive) (dir : Path) (r : Record) (fs fs' : FileSystem) (x : Path)
    (loc : Location) : Prop where
  place : r.placeUnder dir = some x
  placed : Placed fs fs' x loc
  unpacked : r.kind.isRegular = true → fs.HasOpen a.file → a.UnpackedTo r x fs'

/-- **What extracting an entry comes to.**  Under strict policies nothing is lost, even if it
fails. -/
theorem extractEntry_extracts (hwf : fs.WellFormed) (a : Archive) (dir : Path)
    (policy : UnpackPolicy) (resolver : Resolver) (r : Record) (pool : Pool) :
    (extractEntry a dir policy resolver r).Ensures pool fs fun result fs' => fs'.WellFormed ∧
      (policy.strict = true → resolver.policy.strict = true → RetainsAll fs fs') ∧
      ∀ x, result = .ok x → ∃ loc, Extracts a dir r fs fs' x loc := by
  rw [extractEntry]
  split
  · rename_i hkind
    obtain ⟨⟨hstrict, hplaced⟩, hname⟩ := resolver.resolve_puts hwf r.name dir pool
    refine ⟨(resolver.resolve_ensures hwf r.name dir pool).1, fun _ h => hstrict h, ?_⟩
    intro x hx
    obtain ⟨loc, hloc⟩ := hplaced x hx
    obtain ⟨reference, hparse, hjoin⟩ := hname x hx
    refine ⟨loc, ⟨?_, hloc, fun h => absurd hkind (EntryKind.isRegular_ne h).2.1⟩⟩
    rw [Record.placeUnder, if_pos hkind, hparse]
    exact hjoin
  · rename_i hkind
    refine Pooled.Ensures.onFiles ((a.unpack_puts hwf r dir policy).and
      (a.unpack_ensures hwf r dir policy)) fun result fs' h => ?_
    obtain ⟨⟨⟨hstrict, hplaced⟩, hunpacked⟩, hwf', -⟩ := h
    refine ⟨hwf', fun h _ => hstrict h, fun x hx => ?_⟩
    have hx := mapError_eq_ok.mp hx
    obtain ⟨loc, hloc⟩ := hplaced x hx
    obtain ⟨hjoin, hpayload⟩ := hunpacked x hx
    refine ⟨loc, ⟨?_, hloc, fun h => hpayload (EntryKind.isRegular_ne h).2.2⟩⟩
    rw [Record.placeUnder, if_neg hkind]
    exact hjoin

/-! ## Many entries -/

/-- Extracting some entries and then more is extracting them all. -/
theorem extractAmong_append (a : Archive) (dir : Path) (policy : UnpackPolicy)
    (resolver : Resolver) (observe : String → Effect τ Empty Unit) (count : Nat)
    (entries more : List (Except Malformation Record)) (pool : Pool) (w : World τ) :
    Stateful.apply (extractAmong a dir policy resolver observe count (entries ++ more)) pool w =
      match Stateful.apply (extractAmong a dir policy resolver observe count entries) pool w with
      | ((.ok n, pool'), w') =>
        Stateful.apply (extractAmong a dir policy resolver observe n more) pool' w'
      | ((.error e, pool'), w') => ((.error e, pool'), w') := by
  induction entries generalizing count pool w with
  | nil => rfl
  | cons e rest ih =>
    cases e with
    | error m => rfl
    | ok r =>
      rw [List.cons_append, extractAmong, extractAmong]
      by_cases hkind : r.kind.isExtractable = true
      · rw [if_pos hkind, if_pos hkind]
        simp only [Stateful.apply_bind, apply_onWorld, apply_onFiles]
        rcases (extractEntry a dir policy resolver r).apply pool _ with ⟨⟨e | path, pool'⟩, files⟩
        · rfl
        · exact ih (count + 1) pool' _
      · rw [if_neg hkind, if_neg hkind]
        exact ih count pool w

/-- An extraction: what is extracted, where to and how, what is open already, and the world
that it starts in.  Its observer changes nothing but what the collaborators keep. -/
structure Job (τ : Type) where
  archive : Archive
  dir : Path
  policy : UnpackPolicy
  resolver : Resolver
  hear : String → τ → τ
  pool : Pool
  world : World τ

namespace Job
variable (j : Job τ)

/-- Extracts some entries, of which there have been some before. -/
def extract (count : Nat) (entries : List (Except Malformation Record)) : Extracting τ Nat :=
  extractAmong j.archive j.dir j.policy j.resolver (fun name => .changeRest (j.hear name)) count
    entries

/-- What the extraction comes to: its result, the pool and the world that it leaves. -/
def run : (Except LaunchError Nat × Pool) × World τ :=
  Stateful.apply (extractAll j.archive j.dir j.policy j.resolver
    fun name => .changeRest (j.hear name)) j.pool j.world

/-- What extracting the first `k` entries comes to. -/
def after (k : Nat) : (Except LaunchError Nat × Pool) × World τ :=
  Stateful.apply (j.extract 0 (j.archive.entries.take k)) j.pool j.world

/-- The file system when the first `k` entries have been extracted. -/
def files (k : Nat) : FileSystem := (j.after k).2.files

/-- The extraction succeeds. -/
def Succeeds : Prop := ∃ count, j.run.1.1 = .ok count

/-- No entry is replaced. -/
def IsStrict : Prop := j.policy.strict = true ∧ j.resolver.policy.strict = true

variable {j} {k i : Nat}

theorem run_eq_after (hk : j.archive.entries.length ≤ k) : j.after k = j.run := by
  rw [after, List.take_of_length_le hk]
  rfl

/-- A job that succeeds has succeeded after each entry. -/
theorem Succeeds.after (h : j.Succeeds) (k : Nat) : ∃ count, (j.after k).1.1 = .ok count := by
  obtain ⟨count, hcount⟩ := h
  have happend := extractAmong_append j.archive j.dir j.policy j.resolver
    (fun name => .changeRest (j.hear name)) 0 (j.archive.entries.take k)
    (j.archive.entries.drop k) j.pool j.world
  rw [List.take_append_drop] at happend
  have hrun : j.run = _ := happend
  rcases hafter : j.after k with ⟨⟨result, pool'⟩, w'⟩
  rw [Job.after, extract] at hafter
  rw [hrun, hafter] at hcount
  cases result with
  | error e => cases hcount
  | ok n => exact ⟨n, rfl⟩

/-- **The next entry** is extracted where the entries before it have left off. -/
theorem after_succ {e : Except Malformation Record} (he : j.archive.entries[k]? = some e)
    {count : Nat} {w : World τ} (hafter : j.after k = ((.ok count, pool), w)) :
    j.after (k + 1) = Stateful.apply (j.extract count [e]) pool w := by
  rw [Job.after, List.take_add_one, he, extract, extractAmong_append]
  rw [Job.after, extract] at hafter
  rw [hafter]
  rfl

/-- **How the files change**: the next entry is extracted, if it has to be on disk. -/
theorem files_succ (h : j.Succeeds) (hwf : (j.files k).WellFormed)
    {e : Except Malformation Record} (he : j.archive.entries[k]? = some e) :
    (j.files (k + 1)).WellFormed ∧ (j.IsStrict → RetainsAll (j.files k) (j.files (k + 1))) ∧
      ∃ r, e = .ok r ∧ if r.kind.isExtractable then
        ∃ x loc, Extracts j.archive j.dir r (j.files k) (j.files (k + 1)) x loc
      else j.files (k + 1) = j.files k := by
  obtain ⟨count, hcount⟩ := h.after k
  obtain ⟨count', hcount'⟩ := h.after (k + 1)
  rcases hafter : j.after k with ⟨⟨result, pool⟩, w⟩
  rw [hafter] at hcount
  obtain rfl : result = .ok count := hcount
  have hfiles : j.files k = w.files := by rw [files, hafter]
  have hnext := after_succ he hafter
  rw [files, hfiles]
  rw [hfiles] at hwf
  rw [hnext] at hcount' ⊢
  cases e with
  | error m => cases hcount'
  | ok r =>
    rw [extract, extractAmong] at hcount' ⊢
    by_cases hkind : r.kind.isExtractable = true
    · rw [if_pos hkind] at hcount' ⊢
      simp only [Stateful.apply_bind, apply_onWorld, apply_onFiles] at hcount' ⊢
      have hentry := extractEntry_extracts hwf j.archive j.dir j.policy j.resolver r pool
      unfold Pooled.Ensures at hentry
      rcases happly : (extractEntry j.archive j.dir j.policy j.resolver r).apply pool w.files with
        ⟨⟨e | x, pool'⟩, fs'⟩
      · rw [show ((Effect.changeRest (j.hear r.name) : Effect τ Empty Unit).apply w).2.files =
          w.files from rfl, happly] at hcount'
        cases hcount'
      · rw [happly] at hentry
        obtain ⟨hwf', hstrict, hextracts⟩ := hentry
        obtain ⟨loc, hloc⟩ := hextracts x rfl
        rw [show ((Effect.changeRest (j.hear r.name) : Effect τ Empty Unit).apply w).2.files =
          w.files from rfl, happly]
        exact ⟨hwf', fun hs => hstrict hs.1 hs.2, r, rfl,
          by rw [if_pos hkind]; exact ⟨x, loc, hloc⟩⟩
    · rw [if_neg hkind]
      exact ⟨hwf, fun _ => .refl _, r, rfl, by rw [if_neg hkind]; rfl⟩

/-- Behind the last entry nothing changes. -/
theorem files_succ_of_none (he : j.archive.entries[k]? = none) : j.files (k + 1) = j.files k := by
  rw [files, files, Job.after, Job.after, List.take_add_one, he]
  simp

section Run
variable (h : j.Succeeds) (hwf : j.world.files.WellFormed)
include h hwf

/-- The file system is well-formed after every entry. -/
theorem wellFormed (k : Nat) : (j.files k).WellFormed := by
  induction k with
  | zero => exact hwf
  | succ k ih =>
    cases he : j.archive.entries[k]? with
    | none => rwa [files_succ_of_none he]
    | some e => exact (files_succ h ih he).1

/-- What one entry costs is at most one node. -/
theorem retains_succ (k : Nat) : ∃ loc, RetainsBut loc (j.files k) (j.files (k + 1)) := by
  cases he : j.archive.entries[k]? with
  | none => exact ⟨[], by rw [files_succ_of_none he]; exact .refl _⟩
  | some e =>
    obtain ⟨-, -, r, -, hstep⟩ := files_succ h (wellFormed h hwf k) he
    split at hstep
    · obtain ⟨x, loc, hextracts⟩ := hstep
      exact ⟨loc, hextracts.placed.retains⟩
    · exact ⟨[], by rw [hstep]; exact .refl _⟩

/-- **The container stays open.** -/
theorem hasOpen {file : Handle} (hopen : j.world.files.HasOpen file) (k : Nat) :
    (j.files k).HasOpen file := by
  induction k with
  | zero => exact hopen
  | succ k ih =>
    obtain ⟨loc, hretains⟩ := retains_succ h hwf k
    exact ih.retained hretains

/-- What an entry decodes to does not change in between. -/
theorem decoding_files (hopen : j.world.files.HasOpen j.archive.file) (r : Record) (k : Nat) :
    j.archive.decoding r (j.files k) = j.archive.decoding r j.world.files := by
  induction k with
  | zero => rfl
  | succ k ih =>
    obtain ⟨loc, hretains⟩ := retains_succ h hwf k
    rw [Archive.decoding_retained (hasOpen h hwf hopen k) hretains, ih]

/-- **A regular file is unpacked** when its turn comes. -/
theorem unpackedTo_succ (hopen : j.world.files.HasOpen j.archive.file)
    (he : j.archive.entries[i]? = some (.ok r)) (hkind : r.kind.isRegular = true) :
    ∃ target, j.dir.containedJoin r.name = some target ∧
      j.archive.UnpackedTo r target (j.files (i + 1)) := by
  obtain ⟨hextractable, hdependency, -⟩ := EntryKind.isRegular_ne hkind
  obtain ⟨-, -, r', hr, hstep⟩ := files_succ h (wellFormed h hwf i) he
  obtain rfl := Except.ok.inj hr
  rw [if_pos hextractable] at hstep
  obtain ⟨target, loc, hplace, -, hunpacked⟩ := hstep
  rw [Record.placeUnder, if_neg hdependency] at hplace
  exact ⟨target, hplace, hunpacked hkind (hasOpen h hwf hopen i)⟩

end Run

end Job

end Extraction

end Stowage
