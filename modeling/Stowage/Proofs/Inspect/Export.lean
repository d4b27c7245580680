import Stowage.Inspect.Export
import Stowage.Proofs.Unpack.Placing

/-!
# What an export leaves

The payload of an entry is written to a file that has been opened before anything is decoded.
So the file is there, or has lost what it held, when the payload turns out to be damaged, and
it keeps what had been decoded up to the damage: `Archive.exportTo_leaves` says what it holds,
and that this is the only thing that has changed (`Rewritten`).

It follows that an export spares what was there before (`Spared`) only when nothing could be
written at all, or when by chance the file has held the same bytes before.
`Archive.exportTo_not_spared` is an export to a free name that leaves one byte of two.
-/

namespace Stowage

open FileSystem Result Call

variable {fs fs' fs'' : FileSystem} {p output : Path} {n : Nat} {bytes : Bytes} {ε : Type}
  {a : Archive} {r : Record} {name : String} {e : InspectError}

namespace FileSystem

/-- The bytes of the file that a path leads to, whoever may read them. -/
def bytesAt (fs : FileSystem) (p : Path) : Option Bytes :=
  match fs.find true p with
  | .ok loc => match fs.node? loc with
    | some (.file n) => some (fs.inode n).bytes
    | _ => none
  | .error _ => none

/-- A path leads to the file that it led to before, with the bytes that it had, or nowhere. -/
def Spared (fs fs' : FileSystem) (p : Path) : Prop :=
  fs'.bytesAt p = fs.bytesAt p ∨ ∀ loc, fs'.find true p ≠ .ok loc

/-- **One file has been written**, to which a path leads.  It may have other names. -/
structure Rewritten (fs fs' : FileSystem) (p : Path) (n : Nat) (bytes : Bytes) : Prop where
  found : ∃ loc, fs'.find true p = .ok loc ∧ fs'.node? loc = some (.file n)
  lt_length : n < fs'.inodes.length
  bytes_eq : (fs'.inode n).bytes = bytes
  node_eq : ∀ loc, fs'.node? loc ≠ some (.file n) → fs'.node? loc = fs.node? loc
  inode_eq : ∀ m, m ≠ n → fs'.inode m = fs.inode m

namespace Rewritten
variable (h : Rewritten fs fs' p n bytes)
include h

theorem bytesAt_eq : fs'.bytesAt p = some bytes := by
  obtain ⟨loc, hfind, hnode⟩ := h.found
  rw [bytesAt, hfind]
  dsimp only
  rw [hnode]
  exact congrArg some h.bytes_eq

theorem of_quiet (hq : Quiet fs' fs'') : Rewritten fs fs'' p n bytes := by
  obtain ⟨files, rfl⟩ := hq
  obtain ⟨loc, hfind, hnode⟩ := h.found
  exact ⟨⟨loc, by rwa [find_openFiles], by rwa [node?_openFiles]⟩, h.lt_length, h.bytes_eq,
    fun l => by rw [node?_openFiles]; exact h.node_eq l, h.inode_eq⟩

/-- The file can be changed again. -/
theorem updateInode (f : Inode → Inode) :
    Rewritten fs (fs'.updateInode n f) p n (f (fs'.inode n)).bytes where
  found := by
    obtain ⟨loc, hfind, hnode⟩ := h.found
    have hin : NodesIn fs' (fs'.updateInode n f) := fun l node hl => by rwa [node?_updateInode]
    exact ⟨loc, find_mono hfind hin.shows rfl, by rwa [node?_updateInode]⟩
  lt_length := by
    show n < (fs'.inodes.modify n f).length
    rw [List.length_modify]
    exact h.lt_length
  bytes_eq := by rw [inode_updateInode_self h.lt_length]
  node_eq loc := by
    rw [node?_updateInode]
    exact h.node_eq loc
  inode_eq m hm := by rw [inode_updateInode_of_ne hm, h.inode_eq m hm]

theorem append (more : Bytes) :
    (FileSystem.append n more : Call ε Unit).Ensures fs' fun result fs'' =>
      result = .ok () ∧ Rewritten fs fs'' p n (bytes ++ more) := by
  rw [FileSystem.append]
  split
  · rename_i hmore
    rw [hmore, List.append_nil]
    exact ⟨rfl, h⟩
  · refine ⟨rfl, ?_⟩
    rw [← h.bytes_eq]
    exact h.updateInode _

end Rewritten

theorem inode_addInode_of_ne {m : Nat} (h : m ≠ fs.inodes.length) (content : Inode) :
    (fs.addInode content).2.inode m = fs.inode m := by
  rcases Nat.lt_or_gt_of_ne h with hlt | hgt
  · exact inode_addInode hlt content
  -- behind the new inode there is still nothing
  · have hlength : (fs.inodes ++ [content]).length ≤ m := by
      rw [List.length_append]
      exact hgt
    show ((fs.inodes ++ [content])[m]?).getD _ = (fs.inodes[m]?).getD _
    rw [List.getElem?_eq_none hlength, List.getElem?_eq_none (Nat.le_of_lt hgt)]

/-- **A file that has been opened for writing** is empty. -/
theorem createFile_rewritten (hwf : fs.WellFormed) (p : Path) (mode : Mode) :
    (createFile p mode).Ensures fs fun
      | .ok n, fs' => Rewritten fs fs' p n [] ∧ fs'.openFiles = fs.openFiles
      | .error _, fs' => fs' = fs := by
  unfold Call.Ensures
  rcases createFile_apply p mode fs with
    ⟨e, h⟩ | ⟨loc, n, hloc, hnode, h⟩ | ⟨dir, name, hloc, -, h⟩
  · rw [h]
  · rw [h]
    obtain ⟨hcheck, hleads⟩ := locate_eq_ok.mp hloc
    have hfind : fs.find true p = .ok loc :=
      find_eq_ok.mpr (locate_eq_ok.mpr ⟨hcheck, hleads.followed⟩)
    have hold : Rewritten fs fs p n (fs.inode n).bytes :=
      ⟨⟨loc, hfind, hnode⟩, hwf.lt_length_of_file hnode, rfl, fun _ _ => rfl, fun _ _ => rfl⟩
    exact ⟨hold.updateInode _, rfl⟩
  · rw [h]
    obtain ⟨hcheck, hleads⟩ := locate_eq_ok.mp hloc
    have hadd := node?_addInode fs ⟨mode, []⟩
    have hin : NodesIn fs ((fs.addInode ⟨mode, []⟩).2.put (name :: dir)
        (.file fs.inodes.length)) :=
      NodesIn.trans (fun l node hl => by rwa [hadd])
        (nodesIn_put (by rw [hadd]; exact hleads.of_vacant.2) _)
    have hnode := node?_put_self (fs.addInode ⟨mode, []⟩).2 name dir (.file fs.inodes.length)
    refine ⟨⟨⟨name :: dir, ?_, hnode⟩, ?_, ?_, fun l hl => ?_, fun m hm => ?_⟩, rfl⟩
    · exact find_eq_ok.mpr (locate_eq_ok.mpr ⟨hcheck, hleads.fill hin.shows hnode (by simp)⟩)
    · show _ < (fs.inodes ++ [_]).length
      simp
    · exact congrArg Inode.bytes (inode_addInode_self fs ⟨mode, []⟩)
    · have hne : l ≠ name :: dir := fun he => hl (he ▸ hnode)
      rw [node?_put_of_ne _ _ hne, hadd]
    · exact inode_addInode_of_ne hm _

end FileSystem

/-! ## The export -/

namespace Archive

section

variable [Zlib.Inflater]

/-- What a payload decodes to depends on the file of the archive. -/
theorem decoding_congr (h : fs'.contentOf a.file = fs.contentOf a.file) (r : Record) :
    a.decoding r fs' = a.decoding r fs := by
  rw [decoding, decoding, h]

/-- **What an export does**: nothing, if the file cannot be opened, and otherwise it writes to
this file whatever is decoded. -/
theorem exportTo_ensures (hwf : fs.WellFormed) (hfind : a.find? name = some r) (output : Path) :
    (a.exportTo name output).Ensures fs fun result fs' =>
      (∃ cause, result = .error (.cannotCreate output cause) ∧ fs' = fs) ∨
      ∃ n made, (createFile output Mode.file).apply fs = (.ok n, made) ∧
        made.openFiles = fs.openFiles ∧ (∀ m, m ≠ n → made.inode m = fs.inode m) ∧
        result = decoded (a.decoding r made) ∧
        Rewritten fs fs' output n (a.decoding r made).output := by
  have hnamed : a.entryNamed name = .ok r := by rw [entryNamed, hfind]
  refine .askResult (fun r' hr' => ?_) fun e he => absurd he (by rw [hnamed]; simp)
  cases hnamed.symm.trans hr'
  have hcreated := createFile_rewritten hwf output Mode.file
  unfold Call.Ensures at hcreated ⊢
  rw [apply_bind, apply_withError]
  rcases hcreate : (createFile output Mode.file).apply fs with ⟨cause | n, made⟩
  · rw [hcreate] at hcreated
    exact .inl ⟨cause, rfl, hcreated⟩
  · rw [hcreate] at hcreated
    obtain ⟨hempty, hopen⟩ := hcreated
    refine .inr ⟨n, made, rfl, hopen, hempty.inode_eq, ?_⟩
    have hquiet := (isQuiet_stream (ε := InspectError) a r).apply made
    have hdecodes := stream_result (ε := InspectError) a r made
    rcases hstream : (a.stream r : Call InspectError Decoding).apply made with ⟨d, streamed⟩
    rw [hstream] at hquiet hdecodes
    obtain rfl : d = .ok (a.decoding r made) := hdecodes
    have happend := (hempty.of_quiet hquiet).append (ε := InspectError) (a.decoding r made).output
    unfold Call.Ensures at happend
    rcases hwrite : (FileSystem.append n (a.decoding r made).output : Call InspectError Unit).apply
      streamed with ⟨u, written⟩
    rw [hwrite] at happend
    obtain ⟨rfl, hwritten⟩ := happend
    simp only [Result.mapError_ok, apply_bind, hstream, hwrite, apply_askResult]
    exact ⟨trivial, hwritten⟩

/-- **What a failed export leaves.**  Nothing has changed if the file cannot be opened.  Otherwise
the path leads to a file with what has been decoded up to the fault, and nothing else has changed.
So what was there is spared only if it was a file with these very bytes.  What has been decoded is
what the entry decodes to, unless the file is the archive itself. -/
theorem exportTo_leaves (hwf : fs.WellFormed) (hfind : a.find? name = some r)
    (h : (a.exportTo name output).apply fs = (.error e, fs')) :
    (∃ cause, e = .cannotCreate output cause ∧ fs' = fs) ∨
    ∃ n made fault, (createFile output Mode.file).apply fs = (.ok n, made) ∧
      (a.decoding r made).result = .error fault ∧ e = .archive (.plain fault) ∧
      Rewritten fs fs' output n (a.decoding r made).output ∧
      (Spared fs fs' output ↔ fs.bytesAt output = some (a.decoding r made).output) ∧
      ((∀ position, fs.openFiles[a.file]? ≠ some ⟨.file n, position⟩) →
        a.decoding r made = a.decoding r fs) := by
  have hensures := a.exportTo_ensures hwf hfind output
  unfold Call.Ensures at hensures
  rw [h] at hensures
  rcases hensures with ⟨cause, he, hsame⟩ | ⟨n, made, hcreate, hopen, hinode, hresult, hwritten⟩
  · exact .inl ⟨cause, Except.error.inj he, hsame⟩
  · obtain ⟨fault, hfault, he⟩ := mapError_eq_error.mp hresult.symm
    refine .inr ⟨n, made, fault, hcreate, hfault, he.symm, hwritten, ?_, fun hother => ?_⟩
    · rw [Spared, hwritten.bytesAt_eq, eq_comm]
      obtain ⟨loc, hloc, -⟩ := hwritten.found
      exact or_iff_left fun hnowhere => hnowhere loc hloc
    · refine decoding_congr ?_ r
      rw [FileSystem.contentOf, FileSystem.contentOf, hopen]
      cases hfile : fs.openFiles[a.file]? with
      | none => rfl
      | some f =>
        obtain ⟨target, position⟩ := f
        cases target with
        | directory => rfl
        | file m =>
          have hm : m ≠ n := by
            rintro rfl
            exact hother position hfile
          simp only [hinode m hm]

end

/-- An entry whose stream holds one byte, where two are said to be. -/
def halved : List PackedEntry :=
  [⟨.data, "x", [0x78, 1, 1, 1, 0, 0xfe, 0xff, 0x41, 0, 0x42, 0, 0x42], true, 2⟩]

/-- A file at the place where the export is to be written. -/
def withFormer (files : FileSystem) : FileSystem :=
  (files.addInode ⟨Mode.file, [1, 2, 3]⟩).2.put ["x", "out"] (.file files.inodes.length)

/-- The general statement for an export over a file: the one byte is all that is left. -/
theorem exportTo_leaves_halved : ∃ a files r fs',
    (load ⟨"/c"⟩).apply (packedFiles halved) = (.ok a, files) ∧ a.find? "x" = some r ∧
      (a.exportTo "x" ⟨"/out/x"⟩).apply (withFormer files) =
        (.error (.archive (.plain (.inflate (.wrongLength 1 2)))), fs') ∧
      fs'.bytesAt ⟨"/out/x"⟩ = some [0x41] ∧ ¬Spared (withFormer files) fs' ⟨"/out/x"⟩ := by
  obtain ⟨a, files, hload, hwf, hformer, hfound, hresult, hdecoding, hcreate, hopen⟩ :
      OpensTo halved fun a files => (withFormer files).WellFormed ∧
        (withFormer files).bytesAt ⟨"/out/x"⟩ = some [1, 2, 3] ∧ (a.find? "x").isSome ∧
        ((a.exportTo "x" ⟨"/out/x"⟩).apply (withFormer files)).1 =
          .error (.archive (.plain (.inflate (.wrongLength 1 2)))) ∧
        (∀ r ∈ a.find? "x", (a.decoding r (withFormer files)).output = [0x41]) ∧
        ((createFile ⟨"/out/x"⟩ Mode.file).apply (withFormer files)).1.toOption = some 1 ∧
        (FileSystem.openFiles (withFormer files))[a.file]?.map OpenFile.target =
          some (.file 0) := by
    decide +kernel
  obtain ⟨r, hr⟩ := Option.isSome_iff_exists.mp hfound
  rcases hexport : (a.exportTo "x" ⟨"/out/x"⟩).apply (withFormer files) with ⟨result, fs'⟩
  rw [hexport] at hresult
  subst hresult
  rcases exportTo_leaves hwf hr hexport with
    ⟨cause, hcause, -⟩ | ⟨n, made, fault, hmade, -, -, hwritten, hspared, hsame⟩
  · cases hcause
  · rw [hmade] at hcreate
    cases hcreate
    have hbytes : (a.decoding r made).output = [0x41] := by
      rw [hsame fun position hfile => by rw [hfile] at hopen; cases hopen]
      exact hdecoding r hr
    refine ⟨a, files, r, fs', hload, hr, hexport, ?_, fun h => ?_⟩
    · rw [hwritten.bytesAt_eq, hbytes]
    · have hformer' := hspared.mp h
      rw [hformer, hbytes] at hformer'
      cases hformer'

/-- **An export that fails leaves a part of the payload** where there was nothing before. -/
theorem exportTo_not_spared : ∃ a files fs',
    (load ⟨"/c"⟩).apply (packedFiles halved) = (.ok a, files) ∧ (a.find? "x").isSome ∧
      (a.exportTo "x" ⟨"/out/x"⟩).apply files =
        (.error (.archive (.plain (.inflate (.wrongLength 1 2)))), fs') ∧
      files.find true ⟨"/out/x"⟩ = .error (.os .notFound) ∧
      fs'.find true ⟨"/out/x"⟩ = .ok ["x", "out"] ∧ fs'.bytesAt ⟨"/out/x"⟩ = some [0x41] ∧
      ¬Spared files fs' ⟨"/out/x"⟩ := by
  obtain ⟨a, files, hload, hfound, hresult, hfree, hthere, hbytes⟩ : OpensTo halved fun a files =>
      (a.find? "x").isSome ∧
        ((a.exportTo "x" ⟨"/out/x"⟩).apply files).1 =
          .error (.archive (.plain (.inflate (.wrongLength 1 2)))) ∧
        files.find true ⟨"/out/x"⟩ = .error (.os .notFound) ∧
        ((a.exportTo "x" ⟨"/out/x"⟩).apply files).2.find true ⟨"/out/x"⟩ = .ok ["x", "out"] ∧
        ((a.exportTo "x" ⟨"/out/x"⟩).apply files).2.bytesAt ⟨"/out/x"⟩ = some [0x41] := by
    decide +kernel
  rcases hexport : (a.exportTo "x" ⟨"/out/x"⟩).apply files with ⟨result, fs'⟩
  rw [hexport] at hresult hthere hbytes
  subst hresult
  refine ⟨a, files, fs', hload, hfound, hexport, hfree, hthere, hbytes, ?_⟩
  rintro (hsame | hnowhere)
  · rw [hbytes, bytesAt, hfree] at hsame
    cases hsame
  · exact hnowhere _ hthere

end Archive

end Stowage
