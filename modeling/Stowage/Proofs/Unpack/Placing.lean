import Stowage.Proofs.Container.Reading
import Stowage.Proofs.Unpack.Dependency
import Stowage.Proofs.Unpack.Preparing

/-!
# What unpacking leaves alone

An entry that is unpacked, and a member that is copied, is put under one path.  This module
says what that comes to for everything else: nothing is given up but the node that the path
has named before (`Placed`), and under the strict policy, where there must be none, nothing
at all (`RetainsAll`).  A file that has been unpacked holds the payload of its entry
(`Archive.UnpackedTo`).

Writing to a place that is ready either puts there what the entry is on disk
(`Archive.Written`) or leaves everything as it was (`Intact`): the file that is removed after
a failure is the one that the call itself has made, for its place was free then
(`NewFile.removeFile`).  So the strict policy keeps its promise when a call fails, too.
-/

namespace Stowage

open FileSystem Result Call

variable {P : Location → Prop} {fs fs' fs₁ fs₂ : FileSystem} {x : Path} {loc : Location}
  {ε α : Type}

/-! ## Payloads -/

namespace Archive
variable {a : Archive} {r : Record} {bytes : Bytes}

variable [Zlib.Inflater]

/-- What the payload of an entry decodes to, with the file of the archive as it is. -/
def decoding (a : Archive) (r : Record) (fs : FileSystem) : Decoding :=
  if a.fileLength < a.payloadStop r then
    .failed (.truncated (.payloadBeyondFile (a.payloadStart r) (a.payloadStop r) a.fileLength))
  else decodeFrom r ((fs.contentOf a.file).drop (a.payloadStart r))

theorem stream_result (a : Archive) (r : Record) (fs : FileSystem) :
    ((a.stream r : Call ε Decoding).apply fs).1 = .ok (a.decoding r fs) := by
  rw [stream, decoding]
  split <;> rfl

/-- What an entry extracts to is what it decodes to. -/
theorem payload_result (a : Archive) (r : Record) (fs : FileSystem) :
    ((a.payload r).apply fs).1 = match (a.decoding r fs).result with
      | .ok _ => .ok (a.decoding r fs).output
      | .error fault => .error ((ArchiveError.plain fault).inEntry r.name) := by
  rw [payload, Call.apply_bind]
  rcases hs : (a.stream r : Call ArchiveError Decoding).apply fs with ⟨d, fs₁⟩
  have hd := stream_result (ε := ArchiveError) a r fs
  rw [hs] at hd
  obtain rfl : d = .ok (a.decoding r fs) := hd
  dsimp only
  cases (a.decoding r fs).result <;> rfl

/-- The payload of an entry is what it decodes to, if that succeeds. -/
theorem payload_eq_ok : ((a.payload r).apply fs).1 = .ok bytes ↔
    ∃ n, (a.decoding r fs).result = .ok n ∧ (a.decoding r fs).output = bytes := by
  rw [payload_result]
  cases (a.decoding r fs).result <;> simp

/-- A payload that cannot be decoded is an error about its entry. -/
theorem payload_eq_error {e : ArchiveError} : ((a.payload r).apply fs).1 = .error e ↔
    ∃ fault, (a.decoding r fs).result = .error fault ∧ e = ⟨some r.name, fault⟩ := by
  rw [payload_result]
  cases (a.decoding r fs).result with
  | ok n => simp
  | error fault => simp [ArchiveError.inEntry, ArchiveError.plain, eq_comm]

/-- **What is payload stays payload**, as long as what is open keeps its content. -/
theorem decoding_retained (hopen : fs.HasOpen a.file) (h : Retains P fs fs') (r : Record) :
    a.decoding r fs' = a.decoding r fs := by
  rw [decoding, decoding, hopen.contentOf h]

omit [Zlib.Inflater] in
/-- **A container that has been opened** is open. -/
theorem hasOpen_of_load {path : Path} (h : (load path).apply fs = (.ok a, fs')) :
    fs'.HasOpen a.file := by
  obtain ⟨content, hcontent⟩ := content_of_load (congrArg Prod.fst h)
  obtain ⟨fs'', position, happly, n, hfile, hbytes⟩ := load_apply hcontent
  rw [h, Prod.mk.injEq] at happly
  obtain ⟨hresult, rfl⟩ := happly
  obtain ⟨⟨cookie, base, start⟩, hplan, hrest⟩ := bind_eq_ok.mp (mapError_eq_ok.mp hresult.symm)
  obtain ⟨needed, -, ha⟩ := bind_eq_ok.mp hrest
  cases ha
  refine ⟨_, hfile, fun m hm => ?_⟩
  cases hm
  by_cases hn : n < fs'.inodes.length
  · exact hn
  -- without an inode the file had no content
  have hempty : (fs'.inode n).bytes = [] := by
    show ((fs'.inodes[n]?).getD _).bytes = []
    rw [List.getElem?_eq_none (Nat.le_of_not_lt hn)]
    rfl
  rw [← hbytes, hempty] at hplan
  cases hplan

/-- **An entry has been unpacked to a path**: the path leads to a file with the payload of the
entry and its permissions. -/
structure UnpackedTo (a : Archive) (r : Record) (x : Path) (fs : FileSystem) : Prop where
  isOpen : fs.HasOpen a.file
  decodes : ∃ count, (a.decoding r fs).result = .ok count
  holds : fs.HoldsFile x ⟨unpackedMode r.kind, (a.decoding r fs).output⟩

namespace UnpackedTo
variable (h : a.UnpackedTo r x fs)
include h

/-- It stays so when everything is kept. -/
theorem retained (hr : RetainsAll fs fs') : a.UnpackedTo r x fs' where
  isOpen := h.isOpen.retained hr
  decodes := by
    rw [decoding_retained h.isOpen hr]
    exact h.decodes
  holds := by
    rw [decoding_retained h.isOpen hr]
    exact h.holds.retained hr

/-- It stays so when a node is lost that the path does not depend on. -/
theorem retained_but (hwf : fs.WellFormed) (hr : RetainsBut loc fs fs')
    (hindependent : ¬fs.DependsOn x loc) : a.UnpackedTo r x fs' where
  isOpen := h.isOpen.retained hr
  decodes := by
    rw [decoding_retained h.isOpen hr]
    exact h.decodes
  holds := by
    rw [decoding_retained h.isOpen hr]
    exact h.holds.retained_but hwf hr hindependent

/-- **What can be read there** is the payload of the entry. -/
theorem content : ∃ bytes, ((a.payload r).apply fs).1 = .ok bytes ∧ fs.content x = .ok bytes := by
  obtain ⟨count, hcount⟩ := h.decodes
  obtain ⟨loc, n, hfind, hnode, -, hinode⟩ := h.holds
  have hallows : fs.allows loc .read = true := by
    rw [allows, hnode]
    simp only [hinode, unpackedMode]
    split <;> decide
  refine ⟨(a.decoding r fs).output, payload_eq_ok.mpr ⟨count, hcount, rfl⟩, ?_⟩
  exact content_eq_ok.mpr ⟨loc, n, hfind, hallows, hnode, by rw [hinode]⟩

end UnpackedTo

end Archive

/-! ## Writing to a place that is ready -/

/-- **Making a link at a free place** puts it there, or changes nothing. -/
theorem makeLink_names (target : String) (x : Path) (fs : FileSystem) :
    (FileSystem.makeLink target x).Ensures fs fun
      | .ok _, fs' => ∃ loc, Named fs fs' x loc ∧ fs'.node? loc = some (.link target)
      | .error _, fs' => fs' = fs := by
  unfold Call.Ensures
  rcases makeLink_apply target x fs with ⟨e, h⟩ | ⟨dir, name, hloc, h⟩
  · rw [h]
  · rw [h]
    have hfree := (locateName_eq_ok.mp hloc).2.of_vacant.2
    have hretains : RetainsAll fs (fs.put (name :: dir) (.link target)) :=
      (Retains.refl fs).put hfree _
    have hthere := locateName_of_free hloc hretains.nodesIn.shows rfl
    rw [node?_put_self] at hthere
    exact ⟨_, ⟨⟨dir, name, rfl, hloc⟩, hretains, hthere⟩, node?_put_self ..⟩

section Writing
variable {x : Path} (hx : x.IsTrim) (hwf : fs.WellFormed) (habsent : fs.Absent x)
include hx hwf habsent

/-- **Copying a file to a free place** puts its content there, or leaves everything as it
was. -/
theorem copyFile_names (source : Path) :
    (FileSystem.copyFile source x).Ensures fs fun
      | .ok _, fs' => ∃ loc n, Named fs fs' x loc ∧ fs'.node? loc = some (.file n) ∧
        fs.content source = .ok (fs'.inode n).bytes
      | .error _, fs' => Intact fs fs' := by
  have hopen : (openFile source).Ensures fs fun result fs' =>
      (openFile source).apply fs = (result, fs') ∧ RetainsAll fs fs' ∧ Quiet fs fs' :=
    ⟨rfl, onlyReads_openFile source _ (ignoresReading_retains _ fs) fs (.refl fs),
      (isQuiet_openFile source).apply fs⟩
  refine hopen.bind (fun h fs₁ ⟨happly, hkept, hq⟩ => Ensures.ask ?_) fun e fs₁ ⟨_, hkept, hq⟩ =>
    .of_quiet hq hkept
  have hintact := Intact.of_quiet hq hkept
  split
  · rename_i n position hfile
    obtain ⟨hcontent, rfl, from', hnode⟩ := content_of_openFile happly hfile
    have hn := Nat.lt_of_lt_of_le (hwf.lt_length_of_file hnode) hkept.length_le
    have habsent₁ : fs₁.Absent x := fun loc hloc =>
      habsent loc (by rwa [hintact.locateName] at hloc)
    refine Ensures.ask ?_
    have hfiles (mode : Mode) : (createFile x mode).Ensures fs₁ fun _ fs₂ =>
        fs₂.openFiles = fs₁.openFiles := by
      unfold Call.Ensures
      rcases createFile_apply x mode fs₁ with
        ⟨e, h⟩ | ⟨loc, m, -, -, h⟩ | ⟨dir, name, -, -, h⟩ <;> rw [h] <;> rfl
    refine ((createFile_newFile hx (hq.wellFormed hwf) habsent₁ _).and (hfiles _)).bind ?_
      fun e fs₂ ⟨h, _⟩ => h ▸ hintact
    rintro m fs₂ ⟨⟨loc, hnew, hinode⟩, hfiles₂⟩
    refine Ensures.change (Ensures.ask ?_)
    -- what is read is what the file held before
    have hnew₃ := hnew.updateInode ({ · with mode := (fs₁.inode n).mode })
    have hempty : ((fs₂.updateInode m ({ · with mode := (fs₁.inode n).mode })).inode m).bytes =
        [] := by
      rw [inode_updateInode_self hnew.lt_length, hinode]
    have hread : (fs₂.updateInode m ({ · with mode := (fs₁.inode n).mode })).unread h =
        (fs.inode n).bytes := by
      have hopened : (fs₂.updateInode m ({ · with mode := (fs₁.inode n).mode })).openFiles[h]? =
          some ⟨.file n, 0⟩ := (congrArg (·[h]?) hfiles₂).trans hfile
      rw [FileSystem.unread, hopened, FileSystem.contentOf, hopened]
      show ((FileSystem.inode _ n).bytes).drop 0 = _
      rw [List.drop_zero, hnew₃.retains.inodes n hn,
        hkept.inodes n (hwf.lt_length_of_file hnode)]
    rw [hread]
    generalize fs₂.updateInode m ({ · with mode := (fs₁.inode n).mode }) = fs₃ at hnew₃ hempty
    refine (hnew₃.append (fs.inode n).bytes).mono ?_
    rintro - fs₄ ⟨rfl, hnew₄, hbytes⟩
    rw [hempty, List.nil_append] at hbytes
    exact ⟨loc, m, hnew₄.toNamed.of_quiet hq hkept, hnew₄.node, by rw [hcontent, hbytes]⟩
  · exact ensures_throw hintact

end Writing

namespace Archive
variable {a : Archive} {r : Record}

/-- **What goes wrong when an entry is written** to a place that is ready. -/
inductive WriteFault [Zlib.Inflater] (a : Archive) (r : Record) : ArchiveFault → Prop
  /-- The file system refuses. -/
  | io (cause : FileError) : WriteFault a r (.io cause)
  /-- The payload cannot be decoded. -/
  | payload {fs : FileSystem} {fault : ArchiveFault} :
      (a.decoding r fs).result = .error fault → WriteFault a r fault
  /-- The target of a link is no text. -/
  | notText {fs : FileSystem} {count : Nat} : r.kind = .symlink →
      (a.decoding r fs).result = .ok count → WriteFault a r (.malformed .linkTargetNotText)
  /-- The target of a link leads outside. -/
  | leaves {fs : FileSystem} {count : Nat} (target : String) : r.kind = .symlink →
      (a.decoding r fs).result = .ok count → WriteFault a r (.unsafeName s!"{r.name} -> {target}")

end Archive

section Writing
variable {x : Path} (hx : x.IsTrim) (hwf : fs.WellFormed) (habsent : fs.Absent x)
include hx hwf habsent

/-- **Writing the payload of an entry to a free place** leaves a file with the payload there,
or else everything as it was. -/
theorem writeFile_names [Zlib.Inflater] (a : Archive) (r : Record) :
    (a.writeFile r x).Ensures fs fun
      | .ok _, fs' => ∃ loc n, NewFile fs fs' x loc n ∧
        (fs.HasOpen a.file → ∃ count, (a.decoding r fs).result = .ok count ∧
          fs'.inode n = ⟨Archive.unpackedMode r.kind, (a.decoding r fs).output⟩)
      | .error e, fs' => Intact fs fs' ∧ e.entry = none ∧ a.WriteFault r e.fault := by
  refine Ensures.bind (R := fun
      | .ok n, fs' => ∃ loc, NewFile fs fs' x loc n ∧ fs'.inode n = ⟨Mode.file, []⟩
      | .error e, fs' => fs' = fs ∧ ∃ cause, e = ArchiveError.ofFile cause)
    ((createFile_newFile hx hwf habsent Mode.file).withError fun result fs' h => ?_) ?_ ?_
  · cases result with
    | ok n => exact h
    | error cause => exact ⟨h, cause, rfl⟩
  · rintro n fs₁ ⟨loc, hnew, hinode⟩
    have hI : IgnoresReading fun fs₂ => NewFile fs fs₂ x loc n ∧ fs₂.inode n = ⟨Mode.file, []⟩ :=
      ⟨fun fs₂ f h => ⟨(ignoresReading_newFile fs x loc n).opened fs₂ f h.1, h.2⟩,
        fun fs₂ file f hf h => ⟨(ignoresReading_newFile fs x loc n).moved fs₂ file f hf h.1, h.2⟩⟩
    refine Ensures.bind (R := fun d fs₂ => d = .ok (a.decoding r fs₁) ∧ NewFile fs fs₂ x loc n ∧
      fs₂.inode n = ⟨Mode.file, []⟩) ⟨Archive.stream_result a r fs₁,
        Archive.onlyReads_stream a r _ hI fs₁ ⟨hnew, hinode⟩⟩ ?_ (by rintro e fs₂ ⟨h, -⟩; cases h)
    rintro d fs₂ ⟨hd, hnew₂, hinode₂⟩
    obtain rfl := Except.ok.inj hd
    refine (hnew₂.append (a.decoding r fs₁).output).bind ?_ (by rintro e fs₃ ⟨h, -⟩; cases h)
    rintro - fs₃ ⟨-, hnew₃, hbytes⟩
    rw [hinode₂, List.nil_append] at hbytes
    split
    · rename_i fault hfault
      refine Ensures.bind (R := fun result fs₄ => (∃ outcome, result = .ok outcome) ∧ Intact fs fs₄)
        ⟨⟨_, rfl⟩, (hnew₃.removeFile hx).2⟩
        (fun _ fs₄ h => ensures_throw ⟨h.2, rfl, .payload hfault⟩) ?_
      rintro e fs₄ ⟨⟨_, h⟩, -⟩
      cases h
    · rename_i count hresult
      have hmode := hnew₃.setMode (Archive.unpackedMode r.kind)
      have hlast := hnew₃.updateInode ({ · with mode := Archive.unpackedMode r.kind })
      unfold Call.Ensures
      rw [FileSystem.Call.plainly, apply_withError, hmode]
      refine ⟨loc, n, hlast, fun hopen => ?_⟩
      have hsame := Archive.decoding_retained hopen hnew.retains r
      rw [hsame] at hresult hbytes
      refine ⟨count, hresult, ?_⟩
      rw [inode_updateInode_self hnew₃.lt_length, hbytes]
  · rintro e fs₁ ⟨rfl, cause, rfl⟩
    exact ⟨.refl fs₁, rfl, .io cause⟩

end Writing

/-- **Making the link that an entry describes** at a free place puts it there, or leaves
everything as it was. -/
theorem writeLink_names [Zlib.Inflater] (a : Archive) {r : Record} (hkind : r.kind = .symlink)
    (root x : Path) (fs : FileSystem) :
    (a.writeLink r root x).Ensures fs fun
      | .ok _, fs' => ∃ loc bytes text, Named fs fs' x loc ∧
        ((a.payload r).apply fs).1 = .ok bytes ∧ Text.decode? bytes = some text ∧
        fs'.node? loc = some (.link (Archive.trimZeros text))
      | .error e, fs' => Intact fs fs' ∧ e.entry.getD r.name = r.name ∧ a.WriteFault r e.fault := by
  have hread : (a.payload r).Ensures fs fun result fs' => result = ((a.payload r).apply fs).1 ∧
      RetainsAll fs fs' ∧ Quiet fs fs' :=
    ⟨rfl, Archive.onlyReads_payload a r _ (ignoresReading_retains _ fs) fs (.refl fs),
      (Archive.isQuiet_payload a r).apply fs⟩
  refine hread.bind ?_ ?_
  · rintro bytes fs₁ ⟨hbytes, hkept, hq⟩
    have hintact := Intact.of_quiet hq hkept
    obtain ⟨count, hresult, -⟩ := Archive.payload_eq_ok.mp hbytes.symm
    split
    · rename_i text htext
      refine Ensures.askResult_withError (fun stays _ => ?_)
        fun cause _ => ⟨hintact, rfl, .io cause⟩
      split
      · refine Ensures.withError (makeLink_names _ x fs₁) ?_
        intro result fs₂ h
        cases result with
        | ok u =>
          obtain ⟨loc, hnew, hnode⟩ := h
          exact ⟨loc, bytes, text, hnew.of_quiet hq hkept, hbytes.symm, htext, hnode⟩
        | error cause => exact ⟨h ▸ hintact, rfl, .io cause⟩
      · have hfault := Archive.WriteFault.leaves (Archive.trimZeros text) hkind hresult
        exact ensures_throw ⟨hintact, rfl, hfault⟩
    · exact ensures_throw ⟨hintact, rfl, .notText hkind hresult⟩
  · rintro e fs₁ ⟨he, hkept, hq⟩
    obtain ⟨fault, hfault, rfl⟩ := Archive.payload_eq_error.mp he.symm
    exact ⟨.of_quiet hq hkept, rfl, .payload hfault⟩

/-! ## What is put under a path -/

/-- **Something has been put under a path**: what the path names was no directory, and nothing
else is lost. -/
structure Placed (fs fs' : FileSystem) (x : Path) (loc : Location) : Prop where
  retains : RetainsBut loc fs fs'
  named : fs'.locateName x = .ok (.present loc)

/-- **What is put at a place that has been cleared** replaces what was there. -/
theorem Cleared.placed {strict : Bool} {dir p : Path} {last : String} (hx : IsPlace dir p x last)
    (hwf : fs.WellFormed) (h : Cleared fs x strict fs₂) (hnew : Named fs₂ fs' x loc) :
    Placed fs fs' x loc := by
  obtain rfl | ⟨rfl, old, hold, hdir, rfl⟩ := h
  · exact ⟨.of_all hnew.retains, hnew.named⟩
  refine ⟨?_, hnew.named⟩
  -- the parent of the place leads where it has led before
  have hanywhere {fs : FileSystem} : fs.Confined [] p := fun l _ =>
    Location.within_iff.mpr List.nil_suffix
  obtain ⟨dir', name, rfl, hvacant⟩ := hnew.vacant
  obtain ⟨d, -, hd, hs⟩ := hx.spot hanywhere (reaches_of_locateName hvacant)
  obtain ⟨d', -, hd', hs'⟩ := hx.spot hanywhere
    (reaches_of_leads hx.trim (by simp) (locateName_eq_ok.mp hold).2)
  cases hs.resolve_right (by simp)
  obtain ⟨hs', -⟩ := hs'.resolve_left (by simp)
  cases Spot.present.inj (hd'.unique (Leads.mono hd (nodesIn_cut fs old)))
  cases hs'
  have hcut : RetainsBut (last :: dir') fs (fs.cut (last :: dir')) :=
    (Retains.refl fs).cut hwf hdir (.inl rfl)
  exact hcut.trans (.of_all hnew.retains)

namespace Readied
variable {strict : Bool} {dir : Path} (h : Readied fs dir x strict fs₂)
include h

theorem trim : x.IsTrim :=
  let ⟨_, _, hx⟩ := h.place
  hx.trim

/-- All that is lost in making a place ready is what stood there. -/
theorem retains : ∃ loc, RetainsBut loc fs fs₂ := by
  obtain ⟨loc, hretains⟩ := h.cleared.retains h.prepared.wellFormed
  exact ⟨loc, Retains.trans (.of_all h.prepared.toRetains) hretains⟩

/-- Under the strict policy nothing is lost. -/
theorem retains_of_strict (hs : strict = true) : RetainsAll fs fs₂ := by
  subst hs
  rw [h.cleared.eq_of_strict]
  exact h.prepared.toRetains

/-- What is put at the place replaces what stood there. -/
theorem placed (hnew : Named fs₂ fs' x loc) : Placed fs fs' x loc := by
  obtain ⟨p, last, hx⟩ := h.place
  obtain ⟨hretains, hnamed⟩ := h.cleared.placed hx h.prepared.wellFormed hnew
  exact ⟨Retains.trans (.of_all h.prepared.toRetains) hretains, hnamed⟩

end Readied

/-- **Something is put under a path** by a call that succeeds.  Under the strict policy
nothing is lost, whether it succeeds or fails. -/
def Puts (strict : Bool) (fs : FileSystem) (result : Except ε Path) (fs' : FileSystem) : Prop :=
  (strict = true → RetainsAll fs fs') ∧ ∀ x, result = .ok x → ∃ loc, Placed fs fs' x loc

theorem Puts.error {strict : Bool} {e : ε} (h : strict = true → RetainsAll fs fs') :
    Puts strict fs (.error e : Except ε Path) fs' := ⟨h, fun _ he => by cases he⟩

/-- What is put at a place that has been made ready is put under its path. -/
theorem Readied.puts {strict : Bool} {dir : Path} (h : Readied fs dir x strict fs₂)
    (hnew : Named fs₂ fs' x loc) : Puts strict fs (.ok x : Except ε Path) fs' := by
  refine ⟨fun hs => (h.retains_of_strict hs).trans hnew.retains, fun y hy => ?_⟩
  cases hy
  exact ⟨loc, h.placed hnew⟩

/-- How errors are seen does not matter. -/
theorem Puts.mapError {ε' : Type} {strict : Bool} {result : Except ε Path} (f : ε → ε')
    (h : Puts strict fs result fs') : Puts strict fs (result.mapError f) fs' :=
  ⟨h.1, fun x hx => h.2 x (mapError_eq_ok.mp hx)⟩

/-- What is kept before does not matter. -/
theorem Puts.retained {strict : Bool} {result : Except ε Path}
    (hkept : RetainsAll fs fs') (h : Puts strict fs' result fs₁) : Puts strict fs result fs₁ :=
  ⟨fun hs => hkept.trans (h.1 hs), fun x hx => by
    obtain ⟨loc, hretains, hnamed⟩ := h.2 x hx
    exact ⟨loc, Retains.trans (.of_all hkept) hretains, hnamed⟩⟩

namespace Archive
variable {a : Archive} {r : Record} {dir : Path} {policy : UnpackPolicy} {fault : ArchiveFault}

section

variable [Zlib.Inflater]

/-- **An entry has been written** to a place that was free. -/
inductive Written (a : Archive) (r : Record) (x : Path) (fs fs' : FileSystem) : Prop
  /-- There is a new file with the payload. -/
  | file {loc : Location} {n : Nat} (hkind : r.kind ≠ .symlink) (hnew : NewFile fs fs' x loc n)
      (hpayload : fs.HasOpen a.file → ∃ count, (a.decoding r fs).result = .ok count ∧
        fs'.inode n = ⟨unpackedMode r.kind, (a.decoding r fs).output⟩)
  /-- There is a new link, whose target is the payload. -/
  | link {loc : Location} {bytes : Bytes} {text : String} (hkind : r.kind = .symlink)
      (hnew : Named fs fs' x loc) (hpayload : ((a.payload r).apply fs).1 = .ok bytes)
      (htext : Text.decode? bytes = some text)
      (hnode : fs'.node? loc = some (.link (trimZeros text)))

theorem Written.named (h : a.Written r x fs fs') : ∃ loc, Named fs fs' x loc := by
  cases h with
  | file _ hnew => exact ⟨_, hnew.toNamed⟩
  | link _ hnew => exact ⟨_, hnew⟩

/-- A regular file that has been written is there with its payload. -/
theorem Written.unpackedTo (h : a.Written r x fs fs') (hkind : r.kind ≠ .symlink)
    (hopen : fs.HasOpen a.file) : a.UnpackedTo r x fs' := by
  cases h with
  | link hlink => exact absurd hlink hkind
  | file _ hnew hpayload =>
    obtain ⟨count, hresult, hinode⟩ := hpayload hopen
    have hsame := decoding_retained hopen hnew.retains r
    exact ⟨hopen.retained hnew.retains, ⟨count, by rw [hsame, hresult]⟩, _, _, hnew.found,
      hnew.node, hnew.lt_length, by rw [hsame, hinode]⟩

/-- **How unpacking an entry fails.** -/
inductive Fails (a : Archive) (r : Record) (dir : Path) (policy : UnpackPolicy)
    (fs : FileSystem) : ArchiveFault → FileSystem → Prop
  /-- The entry is none that is unpacked. -/
  | kind : r.kind.isFileLike = false → Fails a r dir policy fs (.notExtractable r.kind.letter) fs
  /-- Its name leads outside. -/
  | name : dir.containedJoin r.name = none → Fails a r dir policy fs (.unsafeName r.name) fs
  /-- Its place cannot be made ready. -/
  | unready {x : Path} {fs' : FileSystem} {fault : ArchiveFault} :
      dir.containedJoin r.name = some x →
      fault = .unsafeName r.name ∨ fault = .wouldOverwrite x ∨ (∃ cause, fault = .io cause) →
      fs.Prepared dir x fs' → Fails a r dir policy fs fault fs'
  /-- It cannot be written to its place. -/
  | unwritten {x : Path} {fs₂ fs' : FileSystem} {fault : ArchiveFault} :
      dir.containedJoin r.name = some x → Readied fs dir x policy.strict fs₂ →
      a.WriteFault r fault → Intact fs₂ fs' → Fails a r dir policy fs fault fs'

/-- What is lost, if anything, is what stood at the place. -/
theorem Fails.retains (h : a.Fails r dir policy fs fault fs') : ∃ gone, RetainsBut gone fs fs' := by
  cases h with
  | kind => exact ⟨[], .refl fs⟩
  | name => exact ⟨[], .refl fs⟩
  | unready _ _ hprepared => exact ⟨[], .of_all hprepared.toRetains⟩
  | unwritten _ hready _ hintact =>
    obtain ⟨gone, hretains⟩ := hready.retains
    exact ⟨gone, hretains.trans (.of_all hintact.toRetains)⟩

theorem Fails.retains_of_strict (h : a.Fails r dir policy fs fault fs')
    (hs : policy.strict = true) : RetainsAll fs fs' := by
  cases h with
  | kind => exact .refl fs
  | name => exact .refl fs
  | unready _ _ hprepared => exact hprepared.toRetains
  | unwritten _ hready _ hintact => exact (hready.retains_of_strict hs).trans hintact.toRetains

/-- **What unpacking an entry comes to.**  It is written to its place, or it fails. -/
theorem place_outcome (hwf : fs.WellFormed) (a : Archive) (r : Record) (dir : Path)
    (policy : UnpackPolicy) : (a.place r dir policy).Ensures fs fun
      | .ok x, fs' => r.kind.isFileLike = true ∧ dir.containedJoin r.name = some x ∧
        ∃ fs₂, Readied fs dir x policy.strict fs₂ ∧ a.Written r x fs₂ fs'
      | .error e, fs' => e.entry.getD r.name = r.name ∧ a.Fails r dir policy fs e.fault fs' := by
  rw [place]
  split
  · rename_i hkind
    exact ensures_throw ⟨rfl, .kind (by simpa using hkind)⟩
  rename_i hkind
  split
  · rename_i x hplace
    refine ensures_placing hwf hplace policy.strict ArchiveError.ofFile
      (.plain (.unsafeName r.name)) (.plain (.wouldOverwrite x)) (fun root p hp => ?_) ?_ ?_ ?_
    · show prepareParent root x r.name = _
      rw [prepareParent, hp]
      rfl
    · show clearTarget x policy = _
      rfl
    · rintro err fs' herr hprepared
      refine ⟨?_, .unready hplace ?_ hprepared⟩ <;> obtain rfl | rfl | ⟨cause, rfl⟩ := herr
      · rfl
      · rfl
      · rfl
      · exact .inl rfl
      · exact .inr (.inl rfl)
      · exact .inr (.inr ⟨cause, rfl⟩)
    · rintro fs₂ root hready
      have hfailed {e : ArchiveError} {fs' : FileSystem} (hentry : e.entry.getD r.name = r.name)
          (hintact : Intact fs₂ fs') (hfault : a.WriteFault r e.fault) :
          e.entry.getD r.name = r.name ∧ a.Fails r dir policy fs e.fault fs' :=
        ⟨hentry, .unwritten hplace hready hfault hintact⟩
      have hdone {fs' : FileSystem} (hwritten : a.Written r x fs₂ fs') :
          r.kind.isFileLike = true ∧ dir.containedJoin r.name = some x ∧
            ∃ fs₂, Readied fs dir x policy.strict fs₂ ∧ a.Written r x fs₂ fs' :=
        ⟨by simpa using hkind, hplace, fs₂, hready, hwritten⟩
      split
      · rename_i hlink
        refine (writeLink_names a hlink root x fs₂).bind ?_
          fun e fs' h => hfailed h.2.1 h.1 h.2.2
        rintro - fs' ⟨loc, bytes, text, hnew, hpayload, htext, hnode⟩
        exact ensures_pure (hdone (.link hlink hnew hpayload htext hnode))
      · rename_i hfile
        refine (writeFile_names hready.trim hready.wellFormed hready.absent a r).bind ?_
          fun e fs' h => hfailed (by rw [h.2.1]; rfl) h.1 h.2.2
        rintro - fs' ⟨loc, n, hnew, hpayload⟩
        exact ensures_pure (hdone (.file hfile hnew hpayload))
  · rename_i hplace
    exact ensures_throw ⟨rfl, .name (Option.eq_none_iff_forall_ne_some.mpr hplace)⟩

/-- The errors of unpacking name the entry. -/
theorem unpack_outcome (hwf : fs.WellFormed) (a : Archive) (r : Record) (dir : Path)
    (policy : UnpackPolicy) : (a.unpack r dir policy).Ensures fs fun
      | .ok x, fs' => r.kind.isFileLike = true ∧ dir.containedJoin r.name = some x ∧
        ∃ fs₂, Readied fs dir x policy.strict fs₂ ∧ a.Written r x fs₂ fs'
      | .error e, fs' => e.entry = some r.name ∧ a.Fails r dir policy fs e.fault fs' :=
  (a.place_outcome hwf r dir policy).withError fun
    | .ok _, _ => id
    | .error _, _ => fun h => ⟨congrArg some h.1, h.2⟩

/-- Unpacking an entry puts it where its name leads.  If that is no link, it is a file with
the payload of the entry. -/
theorem unpack_puts (hwf : fs.WellFormed) (a : Archive) (r : Record) (dir : Path)
    (policy : UnpackPolicy) :
    (a.unpack r dir policy).Ensures fs fun result fs' => Puts policy.strict fs result fs' ∧
      ∀ y, result = .ok y → dir.containedJoin r.name = some y ∧
        (r.kind ≠ .symlink → fs.HasOpen a.file → a.UnpackedTo r y fs') := by
  refine (a.unpack_outcome hwf r dir policy).mono fun result fs' h => ?_
  cases result with
  | error e => exact ⟨.error h.2.retains_of_strict, fun _ he => by cases he⟩
  | ok x =>
    obtain ⟨-, hplace, fs₂, hready, hwritten⟩ := h
    obtain ⟨loc, hnew⟩ := hwritten.named
    obtain ⟨gone, hretains⟩ := hready.retains
    refine ⟨hready.puts hnew, fun y hy => ?_⟩
    cases hy
    exact ⟨hplace, fun hkind hopen => hwritten.unpackedTo hkind (hopen.retained hretains)⟩

end

/-- What is found under a name has that name. -/
theorem name_of_find? {a : Archive} {r : Record} {name : String} (h : a.find? name = some r) :
    r.name = name := by
  simpa using List.find?_some h

end Archive

namespace Resolver

/-- **What copying a member comes to.**  Its content is put at its place, or it fails. -/
theorem copyMember_outcome (hwf : fs.WellFormed) (r : Resolver) (source : Path)
    (member : String) (dir : Path) : (r.copyMember source member dir).Ensures fs fun
      | .ok x, fs' => dir.containedJoin member = some x ∧ ∃ fs₂ loc n,
        Readied fs dir x r.policy.strict fs₂ ∧ Named fs₂ fs' x loc ∧
        fs'.node? loc = some (.file n) ∧ fs₂.content source = .ok (fs'.inode n).bytes
      | .error e, fs' => ((∃ cause, e = .io cause) ∨ ∃ error, e = .archive error) ∧
        (r.policy.strict = true → RetainsAll fs fs') := by
  unfold copyMember
  cases hplace : dir.containedJoin member with
  | none => exact Call.ensures_throw ⟨.inr ⟨_, rfl⟩, fun _ => .refl fs⟩
  | some x =>
    refine ensures_placing hwf hplace r.policy.strict LaunchError.io
      (.archive (.plain (.unsafeName member))) (.archive (.plain (.wouldOverwrite x)))
      (fun root p hp => ?_) ?_ ?_ ?_
    · show prepareParent root x member = _
      rw [prepareParent, hp]
      rfl
    · show r.clearTarget x = _
      rfl
    · rintro err fs' herr hprepared
      refine ⟨?_, fun _ => hprepared.toRetains⟩
      obtain rfl | rfl | ⟨cause, rfl⟩ := herr
      · exact .inr ⟨_, rfl⟩
      · exact .inr ⟨_, rfl⟩
      · exact .inl ⟨cause, rfl⟩
    · rintro fs₂ root hready
      refine Call.Ensures.bind (R := fun result fs' =>
          (∀ u, result = .ok u → ∃ loc n, Named fs₂ fs' x loc ∧ fs'.node? loc = some (.file n) ∧
            fs₂.content source = .ok (fs'.inode n).bytes) ∧
          ∀ e, result = .error e → Intact fs₂ fs' ∧ ∃ cause, e = LaunchError.io cause)
        ((copyFile_names hready.trim hready.wellFormed hready.absent source).withError
          fun result fs' h => ?_) ?_ ?_
      · cases result with
        | ok u => exact ⟨fun _ _ => h, fun _ he => by cases he⟩
        | error cause =>
          refine ⟨fun _ hu => (by cases hu), fun e he => ?_⟩
          cases he
          exact ⟨h, cause, rfl⟩
      · rintro u fs' ⟨hcopied, -⟩
        obtain ⟨loc, n, hnew, hnode, hcontent⟩ := hcopied u rfl
        exact Call.ensures_pure ⟨rfl, fs₂, loc, n, hready, hnew, hnode, hcontent⟩
      · rintro e fs' ⟨-, hfailed⟩
        obtain ⟨hintact, hcause⟩ := hfailed e rfl
        exact ⟨.inl hcause, fun hs => (hready.retains_of_strict hs).trans hintact.toRetains⟩

/-- **Copying a member** of an unpacked sibling puts it where its name leads. -/
theorem copyMember_puts (hwf : fs.WellFormed) (r : Resolver) (source : Path) (member : String)
    (dir : Path) :
    (r.copyMember source member dir).Ensures fs fun result fs' =>
      Puts r.policy.strict fs result fs' ∧
        ∀ y, result = .ok y → dir.containedJoin member = some y := by
  refine (r.copyMember_outcome hwf source member dir).mono fun result fs' h => ?_
  cases result with
  | error e => exact ⟨.error h.2, fun _ he => by cases he⟩
  | ok x =>
    obtain ⟨hplace, fs₂, loc, n, hready, hnew, -⟩ := h
    exact ⟨hready.puts hnew, fun y hy => by cases hy; exact hplace⟩

/-- **Resolving a reference** puts the member where its name leads. -/
theorem resolve_puts [Zlib.Inflater] (hwf : fs.WellFormed) (r : Resolver) (text : String)
    (dir : Path) (pool : Pool) :
    (r.resolve text dir).Ensures pool fs fun result fs' => Puts r.policy.strict fs result fs' ∧
      ∀ y, result = .ok y → ∃ reference, Reference.parse text = .ok reference ∧
        dir.containedJoin reference.member = some y := by
  have hreads : IgnoresReading fun fs' => Quiet fs fs' ∧ RetainsAll fs fs' :=
    (ignoresReading_quiet fs).and (ignoresReading_retains _ fs)
  refine ensures_resolve hreads r text dir pool ⟨⟨fs.openFiles, rfl⟩, .refl fs⟩
    (fun e fs' h => ⟨.error fun _ => h.2, fun _ he => by cases he⟩)
    (fun reference source hparse => ?_) fun reference fs' a hparse ⟨hq, hkept⟩ => ?_
  · exact (copyMember_puts hwf r source reference.member dir).mono fun result fs' h =>
      ⟨h.1, fun y hy => ⟨reference, hparse, h.2 y hy⟩⟩
  · rw [unpackMember]
    split
    · rename_i record hfind
      refine (a.unpack_puts (hq.wellFormed hwf) record dir r.policy).withError fun result fs'' h =>
        ⟨(h.1.retained hkept).mapError _, fun y hy => ⟨reference, hparse, ?_⟩⟩
      rw [← Archive.name_of_find? hfind]
      exact (h.2 y (mapError_eq_ok.mp hy)).1
    · exact Call.ensures_throw ⟨.error fun _ => hkept, fun _ he => by cases he⟩

end Resolver

end Stowage
