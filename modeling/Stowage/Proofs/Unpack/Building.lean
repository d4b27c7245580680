import Mathlib.Data.List.Induction
import Stowage.Proofs.Container.Format
import Stowage.Proofs.Unpack.Tree

/-!
# Building the tree

A container of regular files is extracted to a directory that is empty.  Then it can be said
beforehand whether the extraction succeeds, and what there is in the directory afterwards
(`Extraction.Job.builds_the_tree`): it is the tree of the entries.

What one entry comes to is known from the unpacking to a plain directory, and whether it can
be installed is a question about the entries before it.  So the theorem follows by induction
on the entries (`Extraction.Job.comesTo_extract`).
-/

namespace Stowage

open FileSystem Result Stowage.Path

variable {τ : Type} {a : Archive} {dir x : Path} {root : Location} {r : Record}
  {rs : List Record} {ns : List String}

/-! ## Names and places -/

namespace Archive

/-- The entries of an archive that have to be on disk, in stored order. -/
def unpackable (a : Archive) : List Record := a.records.filter (·.kind.isExtractable)

/-- No name has a zero character. -/
theorem zero_not_mem_name (h : .ok r ∈ a.entries) : '\x00' ∉ r.name.toList := by
  obtain ⟨position, rest, -, hread⟩ := Contents.exists_read_of_mem h
  exact Record.zero_not_mem_name hread

/-- **A name that is refused** is not unpacked. -/
theorem unpack_refused [Zlib.Inflater] (hjoin : dir.containedJoin r.name = none)
    (policy : UnpackPolicy) (fs : FileSystem) :
    ∃ e, ((a.unpack r dir policy).apply fs).1 = .error e := by
  rw [unpack, Call.apply_withError, place, hjoin]
  by_cases hkind : r.kind.isFileLike = true
  · rw [hkind]
    exact ⟨_, rfl⟩
  · rw [Bool.not_eq_true] at hkind
    rw [hkind]
    exact ⟨_, rfl⟩

end Archive

theorem EntryKind.isFileLike_of_isRegular {kind : EntryKind} (h : kind.isRegular = true) :
    kind.isFileLike = true := by
  cases kind <;> simp_all [isRegular, isFileLike]

/-- **Whether entries fit together**, said of the paths that they are put under. -/
theorem fits_iff_accepted [Zlib.Inflater] {fs : FileSystem} (dir : Path) : Fits a fs rs ↔
    (∀ r ∈ rs, ∃ x, dir.containedJoin r.name = some x) ∧
    (∀ r ∈ rs, ∃ bytes, ((a.payload r).apply fs).1 = .ok bytes) ∧
    ∀ r ∈ rs, ∀ s ∈ rs, ∀ ns ks, normalNames? r.name = some ns → normalNames? s.name = some ks →
      ns <:+ ks → ns = ks := by
  have hjoin (r : Record) : (∃ x, dir.containedJoin r.name = some x) ↔
      ∃ ns, normalNames? r.name = some ns := by
    rw [containedJoin_eq]
    cases normalNames? r.name <;> simp
  have hdecodes (r : Record) : (∃ bytes, ((a.payload r).apply fs).1 = .ok bytes) ↔
      ∃ count, (a.decoding r fs).result = .ok count := by
    simp [Archive.payload_eq_ok]
  simp only [hjoin, hdecodes]
  constructor
  · rintro ⟨haccepted, hdecodes, hapart⟩
    refine ⟨haccepted, hdecodes, fun r hr s hs ns ks hns hks hsuffix => ?_⟩
    by_cases hne : ns = ks
    · exact hne
    · exact absurd ⟨s, hs, ks, hks, hsuffix, hne⟩ (hapart r hr ns hns)
  · rintro ⟨haccepted, hdecodes, hapart⟩
    refine ⟨haccepted, hdecodes, ?_⟩
    rintro r hr ns hns ⟨s, hs, ks, hks, hsuffix, hne⟩
    exact hne (hapart r hr s hs ns ks hns hks hsuffix)

namespace Extraction.Job

variable {j : Job τ}

/-- **A container of regular files is extracted to an empty directory.**  The archive has been
opened, the directory may be written to, what is there may be replaced, and no name or path is
longer than the system allows. -/
structure StartsEmpty (j : Job τ) (root : Location) : Prop where
  loaded : ∃ path fs, ((Archive.load path).apply fs).1 = .ok j.archive
  isOpen : j.world.files.HasOpen j.archive.file
  wellFormed : j.world.files.WellFormed
  found : j.world.files.find true j.dir = .ok root
  usable : j.world.files.Usable root
  empty : ∀ loc, Location.Inside root loc → j.world.files.node? loc = none
  lenient : j.policy.strict = false
  regular : ∀ r ∈ j.archive.unpackable, r.kind.isRegular = true
  short : ∀ r ∈ j.archive.unpackable, ∀ x, j.dir.containedJoin r.name = some x →
    x.text.utf8ByteSize ≤ maxPathBytes ∧ ∀ ns, normalNames? r.name = some ns →
      ∀ n ∈ ns, n.utf8ByteSize ≤ maxNameBytes

namespace StartsEmpty
variable (h : j.StartsEmpty root)
include h

theorem entries : j.archive.entries = j.archive.records.map .ok :=
  let ⟨_, _, hload⟩ := h.loaded
  Archive.entries_of_load hload

theorem plain : j.world.files.Plain j.dir root :=
  plain_of_empty h.wellFormed h.found h.usable h.empty

/-- **A name that is accepted** continues the directory. -/
theorem continues (hr : r ∈ j.archive.unpackable) (hns : normalNames? r.name = some ns) :
    ∃ x, j.dir.containedJoin r.name = some x ∧ Continues j.dir x ns := by
  obtain ⟨x, hx⟩ : ∃ x, j.dir.containedJoin r.name = some x := by
    rw [containedJoin_eq, hns]
    exact ⟨_, rfl⟩
  obtain ⟨hlong, hshort⟩ := h.short r hr x hx
  have hdir := h.plain.ne_empty
  have hzero : '\x00' ∉ x.chars := by
    intro hzero
    obtain ⟨hin, -⟩ := List.mem_filter.mp hr
    rcases mem_containedJoin hx hzero with hc | hc | hc
    · exact absurd hc (by decide)
    · exact (checkCallPath_eq_ok.mp h.plain.continues_self.check).1 hc
    · exact Archive.zero_not_mem_name (h.entries ▸ List.mem_map_of_mem hin) hc
  have hne : x ≠ .empty := by
    rintro rfl
    have hnil := (components_of_containedJoin hdir hns hx).symm
    exact components_ne_nil hdir (List.append_eq_nil_iff.mp hnil).1
  exact ⟨x, hx, continues_of_containedJoin hdir hns (hshort ns hns) hx
    (checkCallPath_eq_ok.mpr ⟨hzero, hne, hlong⟩)⟩

end StartsEmpty

/-! ## One entry after the other -/

section

variable [Zlib.Inflater]

/-- **One regular file is extracted**: the observer hears of it, and it is unpacked. -/
theorem extract_regular (hkind : r.kind.isRegular = true) (count : Nat) (pool : Pool)
    (w : World τ) : Stateful.apply (j.extract count [.ok r]) pool w =
      (((((j.archive.unpack r j.dir j.policy).apply w.files).1.mapError LaunchError.archive).map
        fun _ => count + 1, pool),
        { w with
          files := ((j.archive.unpack r j.dir j.policy).apply w.files).2
          rest := j.hear r.name w.rest }) := by
  obtain ⟨hextractable, hdependency, -⟩ := EntryKind.isRegular_ne hkind
  have hentry (fs : FileSystem) :
      (extractEntry j.archive j.dir j.policy j.resolver r).apply pool fs =
        ((((j.archive.unpack r j.dir j.policy).apply fs).1.mapError .archive, pool),
          ((j.archive.unpack r j.dir j.policy).apply fs).2) := by
    rw [extractEntry, if_neg hdependency]
    rfl
  rw [extract, extractAmong, if_pos hextractable]
  simp only [Stateful.apply_bind, apply_onWorld, apply_onFiles, hentry]
  rw [show ((Effect.changeRest (j.hear r.name) : Effect τ Empty Unit).apply w).2 =
    { w with rest := j.hear r.name w.rest } from rfl]
  cases ((j.archive.unpack r j.dir j.policy).apply w.files).1 <;> rfl

/-- What the observer has kept when it has heard of some names. -/
def hearAll (j : Job τ) (names : List String) : τ :=
  names.foldl (fun kept name => j.hear name kept) j.world.rest

omit [Zlib.Inflater] in
theorem hearAll_append (names : List String) (name : String) :
    j.hearAll (names ++ [name]) = j.hear name (j.hearAll names) := by
  rw [hearAll, hearAll, List.foldl_append]
  rfl

/-- **What the extraction of some entries has come to**: it has succeeded if they fit together,
and then there is their tree.  The observer has heard of the first of them, and if it has
succeeded, of all. -/
structure ComesTo (j : Job τ) (root : Location) (rs : List Record)
    (result : Except LaunchError Nat) (w : World τ) : Prop where
  succeeds : (∃ count, result = .ok count) ↔ Fits j.archive j.world.files rs
  heard : ∃ names, names <+: rs.map (·.name) ∧ w.rest = j.hearAll names
  built : ∀ count, result = .ok count → count = rs.length ∧
    w.rest = j.hearAll (rs.map (·.name)) ∧ Tree j.world.files w.files j.archive j.dir root rs

namespace ComesTo
variable {w w' : World τ} {count : Nat} {pool : Pool}

/-- An extraction that has failed stays as it is. -/
theorem of_error {e : LaunchError} (hc : j.ComesTo root rs (.error e) w) (r : Record) :
    j.ComesTo root (rs ++ [r]) (.error e) w where
  succeeds := by
    refine ⟨fun ⟨_, he⟩ => (by cases he), fun hfits => ?_⟩
    obtain ⟨_, he⟩ := hc.succeeds.mpr (fits_append.mp hfits).1
    cases he
  heard := by
    obtain ⟨names, hnames, hrest⟩ := hc.heard
    refine ⟨names, hnames.trans ?_, hrest⟩
    rw [List.map_append]
    exact List.prefix_append _ _
  built _ he := by cases he

/-- If the next entry is unpacked exactly if it fits, and then makes the tree of one entry
more, then the extraction goes on as it should. -/
theorem append (hc : j.ComesTo root rs (.ok count) w) {result : Except ArchiveError Path}
    (hrest : w'.rest = j.hear r.name w.rest)
    (hfits : (∃ y, result = .ok y) ↔ Fits j.archive j.world.files (rs ++ [r]))
    (htree : ∀ y, result = .ok y →
      Tree j.world.files w'.files j.archive j.dir root (rs ++ [r])) :
    j.ComesTo root (rs ++ [r]) ((result.mapError LaunchError.archive).map fun _ => count + 1)
      w' := by
  obtain ⟨hcount, hrest', -⟩ := hc.built count rfl
  have hheard : w'.rest = j.hearAll ((rs ++ [r]).map (·.name)) := by
    rw [hrest, hrest', List.map_append]
    exact (hearAll_append _ _).symm
  refine ⟨?_, ⟨_, List.prefix_refl _, hheard⟩, fun n hn => ?_⟩
  · rw [← hfits]
    cases result with
    | error e => exact ⟨fun ⟨_, he⟩ => (by cases he), fun ⟨_, he⟩ => (by cases he)⟩
    | ok y => exact ⟨fun _ => ⟨y, rfl⟩, fun _ => ⟨count + 1, rfl⟩⟩
  · cases result with
    | error e => cases hn
    | ok y =>
      cases hn
      exact ⟨by simp [hcount], hheard, htree y rfl⟩

/-- **The next entry** is extracted if it fits to those before it. -/
theorem extract (h : j.StartsEmpty root) (hc : j.ComesTo root rs (.ok count) w)
    (hr : r ∈ j.archive.unpackable) :
    j.ComesTo root (rs ++ [r]) (Stateful.apply (j.extract count [.ok r]) pool w).1.1
      (Stateful.apply (j.extract count [.ok r]) pool w).2 := by
  have hkind := h.regular r hr
  have hfits := hc.succeeds.mp ⟨count, rfl⟩
  obtain ⟨-, -, ht⟩ := hc.built count rfl
  rw [extract_regular hkind]
  cases hns : normalNames? r.name with
  | none =>
    have hjoin : j.dir.containedJoin r.name = none := by rw [containedJoin_eq, hns]; rfl
    obtain ⟨e, he⟩ := Archive.unpack_refused (a := j.archive) hjoin j.policy w.files
    refine hc.append rfl ?_ fun y hy => ?_
    · rw [he]
      refine ⟨fun ⟨_, he⟩ => (by cases he), fun hfits => ?_⟩
      obtain ⟨-, ns, hns', -⟩ := fits_append.mp hfits
      cases hns.symm.trans hns'
    · cases he.symm.trans hy
  | some names =>
    obtain ⟨n, ns, rfl⟩ := List.exists_cons_of_ne_nil (normalNames?_eq_some.mp hns).2
    obtain ⟨x, hjoin, hx⟩ := h.continues hr hns
    have hopen := h.isOpen.retained ht.retains
    have hinstalls := Archive.unpack_plain ht.plain hopen (EntryKind.isFileLike_of_isRegular hkind)
      (EntryKind.isRegular_ne hkind).2.2 h.lenient hjoin hx
    obtain ⟨hiff, hinstalled⟩ := hinstalls
    refine hc.append rfl ?_ fun y hy => ?_
    · rw [hiff, ht.canInstall_iff h.isOpen, fits_append]
      constructor
      · rintro ⟨hdecodes, hnotAbove, hnotBelow⟩
        exact ⟨hfits, n :: ns, hns, hdecodes, hnotAbove, hnotBelow⟩
      · rintro ⟨-, ns', hns', hcan⟩
        obtain rfl := Option.some.inj (hns.symm.trans hns')
        exact hcan
    · exact ht.installed h.isOpen h.empty hns (hiff.mp ⟨y, hy⟩) (hinstalled y hy)

end ComesTo

/-- **By induction on the entries**, what their extraction comes to. -/
theorem comesTo_extract (h : j.StartsEmpty root)
    (hrs : ∀ r ∈ rs, r.kind.isExtractable = true → r ∈ j.archive.unpackable) :
    j.ComesTo root (rs.filter (·.kind.isExtractable))
      (Stateful.apply (j.extract 0 (rs.map .ok)) j.pool j.world).1.1
      (Stateful.apply (j.extract 0 (rs.map .ok)) j.pool j.world).2 := by
  induction rs using List.reverseRecOn with
  | nil =>
    refine ⟨⟨fun _ => ⟨nofun, nofun, nofun⟩, fun _ => ⟨0, rfl⟩⟩, ⟨[], List.prefix_refl _, rfl⟩,
      fun count hcount => ?_⟩
    cases hcount
    exact ⟨rfl, rfl, Tree.start h.plain h.empty⟩
  | append_singleton rs r ih =>
    have ih := ih fun s hs => hrs s (List.mem_append_left _ hs)
    have hr := hrs r (by simp)
    rw [List.map_append, List.map_singleton, Job.extract, extractAmong_append, ← Job.extract]
    rcases hbefore : Stateful.apply (j.extract 0 (rs.map .ok)) j.pool j.world with
      ⟨⟨result, pool⟩, w⟩
    rw [hbefore] at ih
    rw [List.filter_append]
    by_cases hkind : r.kind.isExtractable = true
    · rw [show [r].filter (·.kind.isExtractable) = [r] by simp [hkind]]
      cases result with
      | error e => exact ih.of_error r
      | ok count => exact ih.extract h (hr hkind)
    · rw [show [r].filter (·.kind.isExtractable) = [] by simp [hkind], List.append_nil]
      cases result with
      | error e => exact ih
      | ok count =>
        simp only [extractAmong, if_neg hkind]
        exact ih

/-- What the whole extraction comes to. -/
theorem comesTo_run (h : j.StartsEmpty root) :
    j.ComesTo root j.archive.unpackable j.run.1.1 j.run.2 := by
  have hrun : j.run = Stateful.apply (j.extract 0 (j.archive.records.map .ok)) j.pool j.world := by
    rw [← h.entries]
    rfl
  rw [hrun]
  exact comesTo_extract h fun r hr hkind => List.mem_filter.mpr ⟨hr, hkind⟩

/-- **An extraction to an empty directory builds the tree of the entries**, if the container has
only regular files to be put on disk, and whatever is there may be replaced.

It succeeds exactly if every name is accepted, every payload decodes, and no entry has a place
above that of another.  It then gives the number of the entries.  Each name leads to the names
that it stands for, below the directory.  At these names there are the files, each with the
payload of the last entry with the names, and with the permissions of its kind; above them
there are the directories, and there is nothing else.

The observer hears of the entries in stored order, and of all if the extraction succeeds. -/
theorem builds_the_tree (h : j.StartsEmpty root) :
    (j.Succeeds ↔
      (∀ r ∈ j.archive.unpackable, ∃ x, j.dir.containedJoin r.name = some x) ∧
      (∀ r ∈ j.archive.unpackable, ∃ bytes,
        ((j.archive.payload r).apply j.world.files).1 = .ok bytes) ∧
      ∀ r ∈ j.archive.unpackable, ∀ s ∈ j.archive.unpackable, ∀ ns ks,
        normalNames? r.name = some ns → normalNames? s.name = some ks → ns <:+ ks → ns = ks) ∧
    (∀ count, j.run.1.1 = .ok count →
      count = j.archive.unpackable.length ∧
      (∀ r ∈ j.archive.unpackable, ∃ x ns, j.dir.containedJoin r.name = some x ∧
        normalNames? r.name = some ns ∧ j.run.2.files.find true x = .ok (ns ++ root)) ∧
      ∀ ns, ns ≠ [] →
        (∀ mode bytes, FileSystem.entry? (j.run.2.files) (ns ++ root) = some (.file mode bytes) ↔
          ∃ r, lastAt j.archive.unpackable ns = some r ∧
            mode = (if r.kind = .binary then 0o700 else 0o600) ∧
            ((j.archive.payload r).apply j.world.files).1 = .ok bytes) ∧
        (j.run.2.files.isDirectoryAt (ns ++ root) = true ↔ IsAbove j.archive.unpackable ns) ∧
        ∀ target, j.run.2.files.node? (ns ++ root) ≠ some (.link target)) ∧
    ∃ names, names <+: j.archive.unpackable.map (·.name) ∧ j.run.2.rest = j.hearAll names ∧
      (j.Succeeds → names = j.archive.unpackable.map (·.name)) := by
  have hc := comesTo_run h
  refine ⟨hc.succeeds.trans (fits_iff_accepted j.dir), fun count hcount => ?_, ?_⟩
  · obtain ⟨rfl, -, ht⟩ := hc.built count hcount
    have hfits := hc.succeeds.mp ⟨_, hcount⟩
    refine ⟨rfl, fun r hr => ?_, fun ns hns => ⟨ht.entry?_iff hfits hns, ht.directories ns hns,
      fun target hlink => ht.plain.not_link hlink target rfl⟩⟩
    obtain ⟨ns, hns⟩ := hfits.accepted r hr
    obtain ⟨x, hjoin, hx⟩ := h.continues hr hns
    exact ⟨x, ns, hjoin, hns, ht.find_entry hr hns hx⟩
  · by_cases hsucceeds : j.Succeeds
    · obtain ⟨count, hcount⟩ := hsucceeds
      obtain ⟨-, hheard, -⟩ := hc.built count hcount
      exact ⟨_, List.prefix_refl _, hheard, fun _ => rfl⟩
    · obtain ⟨names, hnames, hheard⟩ := hc.heard
      exact ⟨names, hnames, hheard, fun h => absurd h hsucceeds⟩

end

/-- Two files of one place, and a program beside a resource that is not put on disk. -/
def stacked : List PackedEntry :=
  [.plain .data "./a/x" [1], .plain .data "a/x" [2], .plain .codeBundle "z" [],
    .plain .binary "b" [3]]

/-- The extraction of an archive to the empty directory, with an observer that writes down what
it hears. -/
def heardOut (a : Archive) (files : FileSystem) : Job (List String) where
  archive := a
  dir := ⟨"/out"⟩
  policy := ⟨false⟩
  resolver := ⟨⟨"/"⟩, ⟨false⟩⟩
  hear name heard := heard ++ [name]
  pool := []
  world := ⟨files, .empty, []⟩

/-- The general statement for a file that is given twice, under names that differ. -/
theorem builds_the_tree_stacked : ∃ a files,
    (Archive.load ⟨"/c"⟩).apply (Archive.packedFiles stacked) = (.ok a, files) ∧
      (heardOut a files).StartsEmpty ["out"] ∧ (heardOut a files).run.1.1 = .ok 3 ∧
      FileSystem.entry? ((heardOut a files).run.2.files) ["x", "a", "out"] =
        some (.file 0o600 [2]) ∧
      FileSystem.entry? ((heardOut a files).run.2.files) ["b", "out"] = some (.file 0o700 [3]) ∧
      (heardOut a files).run.2.files.isDirectoryAt ["a", "out"] = true ∧
      (heardOut a files).run.2.rest = ["./a/x", "a/x", "b"] := by
  obtain ⟨a, files, hload, hwf, hfind, hout, hempty⟩ : Archive.OpensTo stacked fun _ files =>
      files.WellFormed ∧ files.find true ⟨"/out"⟩ = .ok ["out"] ∧
        files.node? ["out"] = some (.directory Mode.directory) ∧
        ∀ e ∈ files.nodes, ¬Location.Inside ["out"] e.1 := by decide +kernel
  obtain ⟨_, _, hload', hrun, hentries⟩ : Archive.OpensTo stacked fun a files =>
      (heardOut a files).run.1.1 = .ok 3 ∧
        (a.unpackable.map fun r => (r.name, r.kind, ((a.payload r).apply files).1)) =
          [("./a/x", .data, .ok [1]), ("a/x", .data, .ok [2]), ("b", .binary, .ok [3])] := by
    decide +kernel
  cases hload.symm.trans hload'
  simp only [List.map_eq_cons_iff, List.map_eq_nil_iff, Prod.mk.injEq] at hentries
  obtain ⟨first, _, hentries, ⟨hname, hkind, -⟩, second, _, rfl, ⟨hname', hkind', hpayload'⟩, third,
    _, rfl, ⟨hname'', hkind'', hpayload''⟩, rfl⟩ := hentries
  have hshort : ∀ name ∈ ["./a/x", "a/x", "b"], ∀ x ∈ Path.containedJoin ⟨"/out"⟩ name,
      x.text.utf8ByteSize ≤ maxPathBytes ∧ ∀ ns ∈ normalNames? name,
        ∀ n ∈ ns, n.utf8ByteSize ≤ maxNameBytes := by decide +kernel
  have hstarts : (heardOut a files).StartsEmpty ["out"] :=
    { loaded := ⟨_, _, congrArg Prod.fst hload⟩
      isOpen := Archive.hasOpen_of_load hload
      wellFormed := hwf
      found := hfind
      usable := ⟨_, hout, by decide⟩
      empty := vacant_of_nodes hempty
      lenient := rfl
      regular := by
        rw [show (heardOut a files).archive.unpackable = _ from hentries]
        simp [hkind, hkind', hkind'', EntryKind.isRegular]
      short := by
        rw [show (heardOut a files).archive.unpackable = _ from hentries]
        intro r hr x hx
        refine hshort r.name ?_ x hx
        have hmem := List.mem_map_of_mem (f := Record.name) hr
        simpa [hname, hname', hname''] using hmem }
  obtain ⟨-, hbuilt, names, -, hheard, hall⟩ := builds_the_tree hstarts
  obtain ⟨-, -, htree⟩ := hbuilt 3 hrun
  rw [hall ⟨3, hrun⟩] at hheard
  rw [show (heardOut a files).archive.unpackable = _ from hentries] at hheard htree
  have hnormal : normalNames? "./a/x" = some ["x", "a"] ∧ normalNames? "a/x" = some ["x", "a"] ∧
      normalNames? "b" = some ["b"] := by decide +kernel
  have hlast : lastAt [first, second, third] ["x", "a"] = some second ∧
      lastAt [first, second, third] ["b"] = some third := by
    simp [lastAt, hname, hname', hname'', hnormal]
  refine ⟨a, files, hload, hstarts, hrun, ?_, ?_, ?_, ?_⟩
  · exact ((htree ["x", "a"] (by simp)).1 _ _).mpr ⟨second, hlast.1, by rw [hkind']; rfl, hpayload'⟩
  · exact ((htree ["b"] (by simp)).1 _ _).mpr ⟨third, hlast.2, by rw [hkind'']; rfl, hpayload''⟩
  · refine (htree ["a"] (by simp)).2.1.mpr ⟨first, by simp, ["x", "a"], ?_, by decide, by decide⟩
    rw [hname, hnormal.1]
  · simp only [List.map_cons, List.map_nil, hname, hname', hname''] at hheard
    exact hheard

end Extraction.Job

end Stowage
