import Stowage.Proofs.Container.Format
import Stowage.Proofs.Unpack.Extracting
import Stowage.Proofs.Unpack.Installing

/-!
# The tree that an extraction builds

What a container without links builds in an empty directory can be read off its table.
Every entry stands for some names below the directory, those of its normalised name.  The
files are at these names, and of several entries with the same names the last one counts;
the directories are above them.

Whether an entry can be installed is a question about the entries before it
(`Tree.canInstall_iff`): they have to fit together (`Fits`).  Once it has been installed, the
tree is that of one entry more (`Tree.installed`).
-/

namespace Stowage

open FileSystem Result Call Stowage.Path

/-! ## Entries as a tree -/

/-- The last of some entries that is put under the given names, innermost first. -/
def lastAt (rs : List Record) (ns : List String) : Option Record :=
  (rs.filter (normalNames? ·.name = some ns)).getLast?

/-- Some names lie above the place of one of some entries. -/
def IsAbove (rs : List Record) (ns : List String) : Prop :=
  ∃ r ∈ rs, ∃ ks, normalNames? r.name = some ks ∧ ns <:+ ks ∧ ns ≠ ks

/-- **Some entries fit together**: their names are accepted, their payloads decode, and none
of them stands where another needs a directory. -/
structure Fits [Zlib.Inflater] (a : Archive) (fs : FileSystem) (rs : List Record) : Prop where
  accepted : ∀ r ∈ rs, ∃ ns, normalNames? r.name = some ns
  decodes : ∀ r ∈ rs, ∃ count, (a.decoding r fs).result = .ok count
  apart : ∀ r ∈ rs, ∀ ns, normalNames? r.name = some ns → ¬IsAbove rs ns

variable {fs₀ fs fs' : FileSystem} {root : Location} {dir x : Path} {n : String}
  {ns ms : List String} {a : Archive} {r : Record} {rs : List Record}

theorem lastAt_append : lastAt (rs ++ [r]) ns =
    if normalNames? r.name = some ns then some r else lastAt rs ns := by
  rw [lastAt, lastAt, List.filter_append]
  by_cases h : normalNames? r.name = some ns <;> simp [h]

theorem lastAt_eq_none_iff :
    lastAt rs ns = none ↔ ∀ r ∈ rs, normalNames? r.name ≠ some ns := by
  simp [lastAt]

theorem mem_of_lastAt (h : lastAt rs ns = some r) : r ∈ rs :=
  (List.mem_filter.mp (List.mem_of_getLast? h)).1

theorem isAbove_append : IsAbove (rs ++ [r]) ms ↔
    IsAbove rs ms ∨ ∃ ks, normalNames? r.name = some ks ∧ ms <:+ ks ∧ ms ≠ ks := by
  constructor
  · rintro ⟨s, hs, hks⟩
    rcases List.mem_append.mp hs with hs | hs
    · exact .inl ⟨s, hs, hks⟩
    · exact .inr (List.mem_singleton.mp hs ▸ hks)
  · rintro (⟨s, hs, hks⟩ | hks)
    · exact ⟨s, List.mem_append_left _ hs, hks⟩
    · exact ⟨r, by simp, hks⟩

/-- **One more entry fits** to others that fit together. -/
theorem fits_append [Zlib.Inflater] : Fits a fs (rs ++ [r]) ↔ Fits a fs rs ∧
    ∃ ns, normalNames? r.name = some ns ∧
    (∃ count, (a.decoding r fs).result = .ok count) ∧ ¬IsAbove rs ns ∧
    ∀ s ∈ rs, ∀ ks, normalNames? s.name = some ks → ks <:+ ns → ks = ns := by
  constructor
  · rintro ⟨haccepted, hdecodes, hapart⟩
    obtain ⟨ns, hns⟩ := haccepted r (by simp)
    have hleft {s : Record} (hs : s ∈ rs) : s ∈ rs ++ [r] := List.mem_append_left _ hs
    refine ⟨⟨fun s hs => haccepted s (hleft hs), fun s hs => hdecodes s (hleft hs), ?_⟩, ns, hns,
      hdecodes r (by simp), ?_, ?_⟩
    · intro s hs ks hks habove
      exact hapart s (hleft hs) ks hks (isAbove_append.mpr (.inl habove))
    · intro habove
      exact hapart r (by simp) ns hns (isAbove_append.mpr (.inl habove))
    · intro s hs ks hks hsuffix
      by_cases hne : ks = ns
      · exact hne
      · exact absurd (isAbove_append.mpr (.inr ⟨ns, hns, hsuffix, hne⟩))
          (hapart s (hleft hs) ks hks)
  · rintro ⟨hfits, ns, hns, hdecodes, hnotAbove, hnotBelow⟩
    refine ⟨fun s hs => ?_, fun s hs => ?_, fun s hs ks hks habove => ?_⟩
    · rcases List.mem_append.mp hs with hs | hs
      · exact hfits.accepted s hs
      · exact ⟨ns, List.mem_singleton.mp hs ▸ hns⟩
    · rcases List.mem_append.mp hs with hs | hs
      · exact hfits.decodes s hs
      · exact List.mem_singleton.mp hs ▸ hdecodes
    · rcases isAbove_append.mp habove with habove | ⟨ns', hns', hsuffix, hne⟩
      · rcases List.mem_append.mp hs with hs | hs
        · exact hfits.apart s hs ks hks habove
        · rw [List.mem_singleton.mp hs, hns] at hks
          exact hnotAbove (Option.some.inj hks ▸ habove)
      · obtain rfl := Option.some.inj (hns.symm.trans hns')
        rcases List.mem_append.mp hs with hs | hs
        · exact hne (hnotBelow s hs ks hks hsuffix)
        · rw [List.mem_singleton.mp hs, hns] at hks
          exact hne (Option.some.inj hks).symm

/-! ## The tree on disk -/

namespace FileSystem

/-- The file at a location, if there is one. -/
def fileAt? (fs : FileSystem) (loc : Location) : Option Inode :=
  match fs.node? loc with
  | some (.file i) => some (fs.inode i)
  | _ => none

theorem fileAt?_of_node {loc : Location} {i : Nat} (h : fs.node? loc = some (.file i)) :
    fs.fileAt? loc = some (fs.inode i) := by
  rw [fileAt?, h]

theorem fileAt?_eq_none_iff {loc : Location} :
    fs.fileAt? loc = none ↔ ∀ i, fs.node? loc ≠ some (.file i) := by
  cases hnode : fs.node? loc with
  | none => simp [fileAt?, hnode]
  | some node => cases node <;> simp [fileAt?, hnode]

theorem entry?_eq_file_iff {loc : Location} {mode : Mode} {bytes : Bytes} :
    fs.entry? loc = some (.file mode bytes) ↔ fs.fileAt? loc = some ⟨mode, bytes⟩ := by
  cases hnode : fs.node? loc with
  | none => simp [fileAt?, entry?, hnode]
  | some node =>
    cases node with
    | file i =>
      rcases hinode : fs.inode i with ⟨mode', bytes'⟩
      simp [fileAt?, entry?, hnode, hinode]
    | _ => simp [fileAt?, entry?, hnode]

theorem fileAt?_of_directory {loc : Location} (h : fs.isDirectoryAt loc = true) :
    fs.fileAt? loc = none := by
  obtain ⟨mode, hmode⟩ := isDirectoryAt_iff.mp h
  rw [fileAt?, hmode]

end FileSystem

namespace Installed
variable {content : Inode} (h : Installed fs fs' dir root ns content)
include h

/-- The other files are as they were. -/
theorem fileAt?_of_ne (hwf : fs.WellFormed) (hclear : ∀ ks, ks <:+ ns → ks ≠ ns →
      ∀ i, fs.node? (ks ++ root) ≠ some (.file i)) (hne : ms ≠ ns) :
    fs'.fileAt? (ms ++ root) = fs.fileAt? (ms ++ root) := by
  rcases h.only (ms ++ root) (fun he => hne (List.append_cancel_right he)) with
    hsame | ⟨hdir, ks, -, hks, hks', he⟩
  · cases hnode : fs.node? (ms ++ root) with
    | none => rw [fileAt?, fileAt?, hsame, hnode]
    | some node =>
      rw [hnode] at hsame
      cases node with
      | file i =>
        rw [fileAt?_of_node hsame, fileAt?_of_node hnode,
          h.retains.inodes i (hwf.lt_length_of_file hnode)]
      | _ => rw [fileAt?, fileAt?, hsame, hnode]
  · rw [fileAt?_of_directory hdir, fileAt?_eq_none_iff.mpr]
    obtain rfl := List.append_cancel_right he
    exact hclear ms hks hks'

/-- **The directories** are those that have been there, and those above the file. -/
theorem isDirectoryAt_iff_above (hvacant : fs.isDirectoryAt (ns ++ root) = false) :
    fs'.isDirectoryAt (ms ++ root) = true ↔
      fs.isDirectoryAt (ms ++ root) = true ∨ ms <:+ ns ∧ ms ≠ ns := by
  obtain ⟨i, hfile, -⟩ := h.file
  constructor
  · intro hdir
    have hne : ms ≠ ns := by
      rintro rfl
      obtain ⟨mode, hmode⟩ := isDirectoryAt_iff.mp hdir
      rw [hfile] at hmode
      cases hmode
    rcases h.only (ms ++ root) (fun he => hne (List.append_cancel_right he)) with
      hsame | ⟨-, ks, -, hks, -, he⟩
    · left
      rwa [isDirectoryAt, directoryMode?, hsame] at hdir
    · obtain rfl := List.append_cancel_right he
      exact .inr ⟨hks, hne⟩
  · rintro (hdir | ⟨⟨below, rfl⟩, hne⟩)
    · obtain ⟨mode, hmode⟩ := isDirectoryAt_iff.mp hdir
      refine isDirectoryAt_iff.mpr ⟨mode, h.retains.nodes _ _ (fun he => ?_) hmode⟩
      rw [he, hvacant] at hdir
      cases hdir
    · cases below with
      | nil => exact absurd rfl hne
      | cons m below =>
        rw [List.append_assoc] at hfile
        exact isDirectoryAt_iff.mpr (h.plain.wellFormed.directory_above hfile)

end Installed

variable [Zlib.Inflater]

/-- **Below a directory there is the tree of some entries**, and what has been there from the
start. -/
structure Tree (fs₀ fs : FileSystem) (a : Archive) (dir : Path) (root : Location)
    (rs : List Record) : Prop where
  plain : fs.Plain dir root
  retains : RetainsAll fs₀ fs
  files : ∀ ns, ns ≠ [] → fs.fileAt? (ns ++ root) = (lastAt rs ns).map fun r =>
    ⟨Archive.unpackedMode r.kind, (a.decoding r fs₀).output⟩
  directories : ∀ ns, ns ≠ [] → (fs.isDirectoryAt (ns ++ root) = true ↔ IsAbove rs ns)

namespace Tree

/-- There is no tree yet. -/
theorem start (h : fs.Plain dir root)
    (hempty : ∀ loc, Location.Inside root loc → fs.node? loc = none) :
    Tree fs fs a dir root [] := by
  have hnode {ns : List String} (hns : ns ≠ []) : fs.node? (ns ++ root) = none :=
    hempty _ (Location.inside_append hns)
  refine ⟨h, .refl fs, fun ns hns => ?_, fun ns hns => ?_⟩
  · rw [fileAt?, hnode hns]
    rfl
  · rw [isDirectoryAt, directoryMode?, hnode hns]
    simp [IsAbove]

variable (ht : Tree fs₀ fs a dir root rs)
include ht

/-- There is no file under names that no entry has. -/
theorem no_file_iff : (∀ i, fs.node? (ns ++ root) ≠ some (.file i)) ↔
    ∀ s ∈ rs, normalNames? s.name ≠ some ns := by
  by_cases hns : ns = []
  · subst hns
    obtain ⟨mode, hmode, -⟩ := ht.plain.usable
    constructor
    · intro _ s _ hs
      exact (normalNames?_eq_some.mp hs).2 rfl
    · intro _ i hfile
      rw [List.nil_append, hmode] at hfile
      cases hfile
  · rw [← fileAt?_eq_none_iff, ht.files ns hns, Option.map_eq_none_iff, lastAt_eq_none_iff]

/-- **When the next entry can be installed**, by the entries before it. -/
theorem canInstall_iff (hopen : fs₀.HasOpen a.file) : a.CanInstall r fs root n ns ↔
    (∃ count, (a.decoding r fs₀).result = .ok count) ∧ ¬IsAbove rs (n :: ns) ∧
      ∀ s ∈ rs, ∀ ks, normalNames? s.name = some ks → ks <:+ n :: ns → ks = n :: ns := by
  have hclear : fs.Clear root ns ↔
      ∀ s ∈ rs, ∀ ks, normalNames? s.name = some ks → ks <:+ n :: ns → ks = n :: ns := by
    constructor
    · intro hclear s hs ks hks hsuffix
      rcases List.suffix_cons_iff.mp hsuffix with he | hsuffix
      · exact he
      · exact absurd hks (ht.no_file_iff.mp (hclear ks hsuffix) s hs)
    · intro hall ms hms
      refine ht.no_file_iff.mpr fun s hs he => ?_
      have hlength := hms.length_le
      rw [hall s hs ms he (hms.trans (List.suffix_cons n ns)), List.length_cons] at hlength
      omega
  have hvacant : fs.isDirectoryAt (n :: ns ++ root) = false ↔ ¬IsAbove rs (n :: ns) := by
    rw [← ht.directories (n :: ns) (by simp), Bool.not_eq_true]
  rw [← hclear, ← hvacant, ← Archive.decoding_retained hopen ht.retains r]
  exact ⟨fun h => ⟨h.decodes, h.vacant, h.clear⟩, fun h => ⟨h.1, h.2.2, h.2.1⟩⟩

/-- **The next entry makes the tree of one entry more.** -/
theorem installed (hopen : fs₀.HasOpen a.file)
    (hempty : ∀ loc, Location.Inside root loc → fs₀.node? loc = none)
    (hns : normalNames? r.name = some (n :: ns)) (hcan : a.CanInstall r fs root n ns)
    (h : Installed fs fs' dir root (n :: ns)
      ⟨Archive.unpackedMode r.kind, (a.decoding r fs).output⟩) :
    Tree fs₀ fs' a dir root (rs ++ [r]) where
  plain := h.plain
  retains :=
    (Retains.trans (.of_all ht.retains) h.retains).all_of_free
      (hempty _ (Location.inside_append (by simp)))
  files ms hms := by
    rw [lastAt_append, hns]
    by_cases he : n :: ns = ms
    · subst he
      obtain ⟨i, hfile, hinode⟩ := h.file
      rw [if_pos rfl, fileAt?_of_node hfile, hinode, Archive.decoding_retained hopen ht.retains]
      rfl
    · rw [if_neg (by simpa using he), ← ht.files ms hms]
      refine h.fileAt?_of_ne ht.plain.wellFormed (fun ks hks hne => ?_) (Ne.symm he)
      rcases List.suffix_cons_iff.mp hks with hks | hks
      · exact absurd hks hne
      · exact hcan.clear ks hks
  directories ms hms := by
    rw [h.isDirectoryAt_iff_above hcan.vacant, isAbove_append, ht.directories ms hms, hns]
    simp

/-- The path of an entry leads to the file with its names. -/
theorem find_entry (hr : r ∈ rs) (hns : normalNames? r.name = some ns)
    (hx : Continues dir x ns) : fs.find true x = .ok (ns ++ root) := by
  obtain ⟨i, hfile⟩ : ∃ i, fs.node? (ns ++ root) = some (.file i) := by
    by_cases hnone : ∀ i, fs.node? (ns ++ root) ≠ some (.file i)
    · exact absurd hns (ht.no_file_iff.mp hnone r hr)
    · simpa using hnone
  exact ht.plain.find hx hfile

/-- **What the files are**: each has the payload of the last entry with its names, and the
permissions of its kind. -/
theorem entry?_iff (hfits : Fits a fs₀ rs) (hns : ns ≠ []) (mode : Mode) (bytes : Bytes) :
    FileSystem.entry? (fs) (ns ++ root) = some (.file mode bytes) ↔
      ∃ r, lastAt rs ns = some r ∧ mode = Archive.unpackedMode r.kind ∧
        ((a.payload r).apply fs₀).1 = .ok bytes := by
  rw [entry?_eq_file_iff, ht.files ns hns, Option.map_eq_some_iff]
  refine exists_congr fun r => and_congr_right fun hlast => ?_
  obtain ⟨n, hn⟩ := hfits.decodes r (mem_of_lastAt hlast)
  rw [Archive.payload_eq_ok]
  constructor
  · intro he
    cases he
    exact ⟨rfl, n, hn, rfl⟩
  · rintro ⟨rfl, -, -, rfl⟩
    rfl

end Tree
end Stowage
