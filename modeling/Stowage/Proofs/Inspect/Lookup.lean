import Stowage.Inspect.Tool
import Stowage.Proofs.Container.Format
import Stowage.Proofs.Unpack.Extracting

/-!
# Looking up a name and installing it

An archive is asked for a name by the inspection tool, which shows the payload of what it
finds.  An extraction puts all entries on disk.  This module compares the two.

What is found is the *first* entry with the name (`Archive.find?_eq_some_iff`), and a table
may give a name twice.  What an extraction leaves is what the *last* entry has left that has
to do with the path: one that is put under it, or one that replaces a link on the way.  So
the two agree on an entry that is found, as long as no later entry takes away anything that
the path of the entry leads through (`Extraction.Job.Undisturbed`).
-/

namespace Stowage

open FileSystem Result

variable {τ : Type} {fs fs' : FileSystem} {path : Path} {a : Archive} {r : Record} {name : String}
  {position : Nat} {rest : Bytes}

/-! ## What is found -/

namespace Contents

/-- Records stand at growing positions. -/
theorem position_of_mem (h : .ok r ∈ recordsFrom position rest) : position ≤ r.position := by
  obtain ⟨later, rest', hle, hread⟩ := exists_read_of_mem h
  obtain ⟨-, -, _, -, rfl⟩ := Record.read_eq_ok.mp hread
  exact hle

/-- So no record comes twice. -/
theorem nodup_recordsFrom (position : Nat) (rest : Bytes) : (recordsFrom position rest).Nodup := by
  induction position, rest using recordsFrom.induct with
  | case1 position =>
    rw [recordsFrom, if_pos rfl]
    exact List.nodup_nil
  | case2 position rest hrest first hread ih =>
    rw [recordsFrom_ok hread, List.nodup_cons]
    refine ⟨fun hmem => ?_, ih⟩
    have hle := position_of_mem hmem
    have hlength := Record.length_of_read hread
    obtain ⟨-, -, _, -, rfl⟩ := Record.read_eq_ok.mp hread
    simp only [Record.describe] at hle hlength
    omega
  | case3 position rest hrest e hread =>
    rw [recordsFrom, if_neg hrest, hread]
    exact List.nodup_cons.mpr ⟨List.not_mem_nil, List.nodup_nil⟩

end Contents

namespace Archive

/-- An entry has a name first: no entry before it has the name. -/
def IsFirst (a : Archive) (name : String) (i : Nat) : Prop :=
  ∀ k < i, ∀ r, a.entries[k]? = some (.ok r) → r.name ≠ name

/-- **What is found** is the first entry with the name. -/
theorem find?_eq_some_iff (h : a.entries = a.records.map .ok) : a.find? name = some r ↔
    ∃ i, a.entries[i]? = some (.ok r) ∧ r.name = name ∧ a.IsFirst name i := by
  have hget {k : Nat} {r : Record} : a.entries[k]? = some (.ok r) ↔ a.records[k]? = some r := by
    rw [h, List.getElem?_map, Option.map_eq_some_iff]
    constructor
    · rintro ⟨r', hr', heq⟩
      cases heq
      exact hr'
    · intro hr
      exact ⟨r, hr, rfl⟩
  simp only [IsFirst, hget]
  rw [find?, List.find?_eq_some_iff_getElem]
  constructor
  · rintro ⟨hname, i, hi, rfl, hbefore⟩
    refine ⟨i, List.getElem?_eq_getElem hi, by simpa using hname, fun k hk r hr => ?_⟩
    obtain ⟨hk', rfl⟩ := List.getElem?_eq_some_iff.mp hr
    simpa using hbefore k hk
  · rintro ⟨i, hr, hname, hbefore⟩
    obtain ⟨hi, rfl⟩ := List.getElem?_eq_some_iff.mp hr
    refine ⟨by simpa using hname, i, hi, rfl, fun k hk => ?_⟩
    have hk' : k < a.records.length := Nat.lt_trans hk hi
    simpa using hbefore k hk a.records[k] (List.getElem?_eq_getElem hk')

/-- **An entry is found under its name** exactly if it has the name first. -/
theorem find?_eq_self_iff (h : a.entries = a.records.map .ok) {i : Nat}
    (hr : a.entries[i]? = some (.ok r)) : a.find? r.name = some r ↔ a.IsFirst r.name i := by
  rw [find?_eq_some_iff h]
  constructor
  · rintro ⟨k, hk, -, hfirst⟩
    obtain ⟨hi, -⟩ := List.getElem?_eq_some_iff.mp hr
    have hnodup : a.entries.Nodup := Contents.nodup_recordsFrom 0 a.table
    obtain rfl := (List.getElem?_inj hi hnodup).mp (hr.trans hk.symm)
    exact hfirst
  · intro hfirst
    exact ⟨i, hr, rfl, hfirst⟩

/-- Something is found under the name of an entry, and it does not come later. -/
theorem exists_find? (h : a.entries = a.records.map .ok) {i : Nat}
    (hr : a.entries[i]? = some (.ok r)) : ∃ k ≤ i, ∃ first, a.entries[k]? = some (.ok first) ∧
      first.name = r.name ∧ a.IsFirst r.name k ∧ a.find? r.name = some first := by
  obtain ⟨first, hfind⟩ : ∃ first, a.find? r.name = some first := by
    rw [← Option.isSome_iff_exists, find?, List.find?_isSome]
    rw [h, List.getElem?_map, Option.map_eq_some_iff] at hr
    obtain ⟨r', hr', heq⟩ := hr
    cases heq
    exact ⟨r, List.mem_of_getElem? hr', by simp⟩
  obtain ⟨k, hk, hname, hfirst⟩ := (find?_eq_some_iff h).mp hfind
  refine ⟨k, ?_, first, hk, hname, hfirst, hfind⟩
  by_cases hik : i < k
  · exact absurd rfl (hfirst i hik r hr)
  · omega

/-- **What is shown of an entry** is what it decodes to. -/
theorem showEntry_apply [Zlib.Inflater] (hfind : a.find? name = some r) {count : Nat}
    (hresult : (a.decoding r fs).result = .ok count) :
    ((a.showEntry name).apply fs).1 = .ok (a.decoding r fs).output := by
  have hnamed : a.entryNamed name = .ok r := by rw [entryNamed, hfind]
  have hstream := stream_result (ε := InspectError) a r fs
  rcases happly : (a.stream r : Call InspectError Decoding).apply fs with ⟨d, fs'⟩
  rw [happly] at hstream
  obtain rfl : d = .ok (a.decoding r fs) := hstream
  simp only [showEntry, Call.apply_bind, Call.apply_askResult, hnamed, happly, decoded, hresult,
    mapError_ok, Call.apply_pure]

end Archive

namespace InspectTool

/-- The tool prints what it shows of an entry, and nothing else. -/
theorem run_extract [Zlib.Inflater] {args : List String} {bytes : Bytes}
    (hargs : CommandLine.read args = .run path (.extract name none))
    (hload : (Archive.load path).apply fs = (.ok a, fs'))
    (hshow : ((a.showEntry name).apply fs').1 = .ok bytes) :
    ((run args).apply fs).1 = .ok ⟨0, bytes, ""⟩ := by
  have hinspect : ((inspect path (.extract name none)).apply fs).1 = .ok ⟨0, bytes, ""⟩ := by
    simp only [inspect, carryOut, Call.apply_bind, Call.apply_withError, hload, mapError_ok]
    rcases happly : (a.showEntry name).apply fs' with ⟨result, fs''⟩
    rw [happly] at hshow
    obtain rfl : result = .ok bytes := hshow
    rfl
  rcases happly : (inspect path (.extract name none)).apply fs with ⟨result, fs''⟩
  rw [happly] at hinspect
  obtain rfl : result = .ok ⟨0, bytes, ""⟩ := hinspect
  simp only [run, hargs, Call.apply_bind, Call.apply_outcome, happly, Call.apply_pure]

end InspectTool

/-! ## What is installed -/

namespace Extraction.Job

variable {j : Job τ}

/-- **No later entry disturbs a path**: where a later entry has been put, there was nothing
before that the path needs to lead where it leads. -/
def Undisturbed [Zlib.Inflater] (j : Job τ) (i : Nat) (target : Path) : Prop :=
  ∀ k r place loc, i < k → j.archive.entries[k]? = some (.ok r) →
    r.kind.isExtractable = true → r.placeUnder j.dir = some place →
    (j.files (k + 1)).locateName place = .ok (.present loc) →
    ¬(j.files k).DependsOn target loc

/-- A file that is not disturbed stays. -/
theorem unpackedTo_of_undisturbed [Zlib.Inflater] (h : j.Succeeds) (hwf : j.world.files.WellFormed)
    {i k : Nat} {target : Path} (hin : j.archive.UnpackedTo r target (j.files (i + 1)))
    (hleft : j.Undisturbed i target) (hik : i < k) : j.archive.UnpackedTo r target (j.files k) := by
  induction hik with
  | refl => exact hin
  | @step k hik ih =>
    cases he : j.archive.entries[k]? with
    | none => rwa [files_succ_of_none he]
    | some e =>
      obtain ⟨-, -, r', rfl, hstep⟩ := files_succ h (wellFormed h hwf k) he
      by_cases hkind : r'.kind.isExtractable = true
      · rw [if_pos hkind] at hstep
        obtain ⟨place, loc, hplace, hplaced, -⟩ := hstep
        have hindependent := hleft k r' place loc hik he hkind hplace hplaced.named
        exact ih.retained_but (wellFormed h hwf k) hplaced.retains hindependent
      · rw [if_neg hkind] at hstep
        rwa [hstep]

/-- **Looking up a name and installing it agree**, as far as the first entry with the name is
concerned, and as long as no later entry disturbs it.

Under the name of an entry the first entry is found that has it.  If that is a regular file,
then what the tool prints for the name is what an extraction that succeeds leaves where the
name leads. -/
theorem lookup_agrees [Zlib.Inflater] (hwf : fs.WellFormed)
    (hload : (Archive.load path).apply fs = (.ok a, fs')) :
    (∀ i r, a.entries[i]? = some (.ok r) →
      (∃ k ≤ i, ∃ first, a.entries[k]? = some (.ok first) ∧ first.name = r.name ∧
        a.IsFirst r.name k ∧ a.find? r.name = some first) ∧
      (a.find? r.name = some r ↔ a.IsFirst r.name i)) ∧
    ∀ j : Job τ, j.archive = a → j.world.files = fs' → j.Succeeds →
      ∀ i r, a.entries[i]? = some (.ok r) → r.kind.isRegular = true → a.IsFirst r.name i →
        ∃ target, j.dir.containedJoin r.name = some target ∧ (j.Undisturbed i target →
          ∃ bytes, j.run.2.files.content target = .ok bytes ∧
            ∀ args, CommandLine.read args = .run path (.extract r.name none) →
              ((InspectTool.run args).apply fs).1 = .ok ⟨0, bytes, ""⟩) := by
  have hentries := Archive.entries_of_load (congrArg Prod.fst hload)
  refine ⟨fun i r hr => ⟨Archive.exists_find? hentries hr, Archive.find?_eq_self_iff hentries hr⟩,
    ?_⟩
  rintro j rfl rfl h i r hr hkind hfirst
  have hq : Quiet fs j.world.files := by
    have hread := Archive.isQuiet_load path fs fs ⟨fs.openFiles, rfl⟩
    rwa [hload] at hread
  have hwf' := hq.wellFormed hwf
  have hopen := Archive.hasOpen_of_load hload
  obtain ⟨target, hjoin, hunpacked⟩ := unpackedTo_succ h hwf' hopen hr hkind
  refine ⟨target, hjoin, fun hleft => ?_⟩
  obtain ⟨hi, -⟩ := List.getElem?_eq_some_iff.mp hr
  have hlast := unpackedTo_of_undisturbed h hwf' hunpacked hleft hi
  rw [files, run_eq_after (Nat.le_refl _)] at hlast
  obtain ⟨bytes, hpayload, hcontent⟩ := hlast.content
  refine ⟨bytes, hcontent, fun args hargs => ?_⟩
  obtain ⟨count, hresult, rfl⟩ := Archive.payload_eq_ok.mp hpayload
  have hsame : j.archive.decoding r j.run.2.files = j.archive.decoding r j.world.files := by
    have hend := decoding_files h hwf' hopen r j.archive.entries.length
    rwa [files, run_eq_after (Nat.le_refl _)] at hend
  rw [hsame] at hresult ⊢
  have hfind := (Archive.find?_eq_self_iff hentries hr).mpr hfirst
  exact InspectTool.run_extract hargs hload (Archive.showEntry_apply hfind hresult)

/-- The extraction of an archive to that directory. -/
def toOut (a : Archive) (files : FileSystem) : Job Unit where
  archive := a
  dir := ⟨"/out"⟩
  policy := ⟨false⟩
  resolver := ⟨⟨"/"⟩, ⟨false⟩⟩
  hear _ := id
  pool := []
  world := ⟨files, .empty, ()⟩

/-- A file and a link to it. -/
def aliased : List PackedEntry := [.plain .data "x" [1], .plain .symlink "l" [0x78]]

/-- The general statement for a file beside which there is a link to it later on. -/
theorem lookup_agrees_aliased : ∃ a files r bytes,
    (Archive.load ⟨"/c"⟩).apply (Archive.packedFiles aliased) = (.ok a, files) ∧
      .ok r ∈ a.entries ∧ r.name = "x" ∧ a.find? "x" = some r ∧
      (toOut a files).run.2.files.content ⟨"/out/x"⟩ = .ok bytes ∧
      ((InspectTool.run ["/c", "extract", "x"]).apply (Archive.packedFiles aliased)).1 =
        .ok ⟨0, bytes, ""⟩ := by
  obtain ⟨a, files, hload, hrun, hnamed, hsame, hrecords⟩ : Archive.OpensTo aliased fun a files =>
      (toOut a files).run.1.1 = .ok 2 ∧
        ((toOut a files).files 2).locateName ⟨"/out/l"⟩ = .ok (.present ["l", "out"]) ∧
        (((toOut a files).files 1).cut ["l", "out"]).find true ⟨"/out/x"⟩ =
          ((toOut a files).files 1).find true ⟨"/out/x"⟩ ∧
        (a.records.map fun r => (r.name, r.kind, r.placeUnder ⟨"/out"⟩)) =
          [("x", .data, some ⟨"/out/x"⟩), ("l", .symlink, some ⟨"/out/l"⟩)] := by decide +kernel
  simp only [List.map_eq_cons_iff, List.map_eq_nil_iff, Prod.mk.injEq] at hrecords
  obtain ⟨first, _, hrecords, ⟨hname, hkind, -⟩, second, _, rfl, ⟨-, -, hplace⟩, rfl⟩ := hrecords
  have hentries : a.entries = [.ok first, .ok second] := by
    rw [Archive.entries_of_load (congrArg Prod.fst hload), hrecords]
    rfl
  have hr : a.entries[0]? = some (.ok first) := by rw [hentries]; rfl
  have hfirst : a.IsFirst first.name 0 := fun k hk => absurd hk (Nat.not_lt_zero k)
  obtain ⟨hlookup, hagrees⟩ := lookup_agrees (τ := Unit) (by decide +kernel) hload
  obtain ⟨target, hjoin, hleft⟩ := hagrees (toOut a files) rfl rfl ⟨2, hrun⟩ 0 first hr
    (by rw [hkind]; rfl) hfirst
  have hjoin' : Path.containedJoin ⟨"/out"⟩ "x" = some ⟨"/out/x"⟩ := by decide +kernel
  rw [hname] at hjoin
  cases hjoin'.symm.trans hjoin
  have hundisturbed : (toOut a files).Undisturbed 0 ⟨"/out/x"⟩ := by
    intro k r place loc hk he _ hr' hloc
    rw [show (toOut a files).archive.entries = [.ok first, .ok second] from hentries] at he
    obtain rfl : k = 1 := by
      have hlt := (List.getElem?_eq_some_iff.mp he).1
      simp only [List.length_cons, List.length_nil] at hlt
      omega
    cases he
    cases hplace.symm.trans hr'
    cases hnamed.symm.trans hloc
    exact fun h => h hsame
  obtain ⟨bytes, hcontent, hshown⟩ := hleft hundisturbed
  refine ⟨a, files, first, bytes, hload, ?_, hname, ?_, hcontent, hshown _ ?_⟩
  · rw [hentries]
    exact List.mem_cons_self
  · rw [← hname]
    exact (hlookup 0 first hr).2.mpr hfirst
  · rw [hname]
    decide +kernel

/-- Two entries of one name. -/
def twins : List PackedEntry := [.plain .data "x" [1], .plain .data "x" [2]]

/-- An entry that lies under a link, and another link in its place. -/
def relinked : List PackedEntry :=
  [.plain .data "a/y" [], .plain .data "b/y" [], .plain .symlink "l" [0x61],
    .plain .data "l/x" [3], .plain .symlink "./l" [0x62]]

/-- **Neither condition can be left out.**  Of two entries with one name the tool shows the
first, and the extraction leaves the second.  And when the link that a name leads through is
replaced by another, the tool shows what is not there any more. -/
theorem lookup_differs :
    (∃ a files first second,
      (Archive.load ⟨"/c"⟩).apply (Archive.packedFiles twins) = (.ok a, files) ∧
      a.entries = [.ok first, .ok second] ∧ a.find? second.name = some first ∧ first ≠ second ∧
      ((InspectTool.run ["/c", "extract", "x"]).apply (Archive.packedFiles twins)).1 =
        .ok ⟨0, [1], ""⟩ ∧
      (toOut a files).run.1.1 = .ok 2 ∧
      (toOut a files).run.2.files.content ⟨"/out/x"⟩ = .ok [2]) ∧
    ∃ a files, (Archive.load ⟨"/c"⟩).apply (Archive.packedFiles relinked) = (.ok a, files) ∧
      ((InspectTool.run ["/c", "extract", "l/x"]).apply (Archive.packedFiles relinked)).1 =
        .ok ⟨0, [3], ""⟩ ∧
      (toOut a files).run.1.1 = .ok 5 ∧
      (toOut a files).run.2.files.content ⟨"/out/l/x"⟩ = .error (.os .notFound) := by
  constructor
  · obtain ⟨a, files, hload, hrun, hcontent, hrecords⟩ : Archive.OpensTo twins fun a files =>
        (toOut a files).run.1.1 = .ok 2 ∧
          (toOut a files).run.2.files.content ⟨"/out/x"⟩ = .ok [2] ∧
          a.records.map (·.name) = ["x", "x"] := by decide +kernel
    simp only [List.map_eq_cons_iff, List.map_eq_nil_iff] at hrecords
    obtain ⟨first, _, hrecords, hname, second, _, rfl, hname', rfl⟩ := hrecords
    have hentries : a.entries = [.ok first, .ok second] := by
      rw [Archive.entries_of_load (congrArg Prod.fst hload), hrecords]
      rfl
    have hnodup : a.entries.Nodup := Contents.nodup_recordsFrom 0 a.table
    have hne : first ≠ second := by simpa [hentries] using hnodup
    refine ⟨a, files, first, second, hload, hentries, ?_, hne, by decide +kernel, hrun, hcontent⟩
    rw [Archive.find?, hrecords, hname']
    simp [hname]
  · obtain ⟨a, files, hload, hrun, hcontent⟩ : Archive.OpensTo relinked fun a files =>
        (toOut a files).run.1.1 = .ok 5 ∧
          (toOut a files).run.2.files.content ⟨"/out/l/x"⟩ = .error (.os .notFound) := by
      decide +kernel
    exact ⟨a, files, hload, by decide +kernel, hrun, hcontent⟩

end Extraction.Job

end Stowage
