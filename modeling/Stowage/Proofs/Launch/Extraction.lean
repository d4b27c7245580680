import Stowage.Proofs.Files.Removal
import Stowage.Proofs.Launch.Course
import Stowage.Proofs.Unpack.Dependency

/-!
# An extraction directory and what is put into it

An extraction makes a directory at a place that has been free (`makeDir_ensures`), and puts
all entries below it.  As long as nothing but the inside of the directory changes (`Hosts`),
its path leads to it, and extracting an entry changes nothing but the inside of it
(`Hosts.unpacked`).
-/

namespace Stowage

open Result

variable {τ : Type}

namespace Path

/-- Following a path that says something gives a path that says something. -/
theorem join_ne_empty (p : Path) {q : Path} (hq : q.text ≠ "") : (p.join q).text ≠ "" := by
  have hchars : q.chars ≠ [] := fun h => hq (String.toList_injective h)
  have hof {cs : List Char} (h : cs ≠ []) : (ofChars cs).text ≠ "" := by
    intro he
    have hlist := congrArg String.toList he
    rw [ofChars, String.toList_ofList] at hlist
    exact h hlist
  rw [join]
  split
  · exact hq
  · split
    · exact hq
    · exact hof (by simp [hchars])
    · exact hof (by simp)

/-- A proper name after a path gives a path that ends in it. -/
theorem isTrim_join_name (p : Path) {name : String} (hname : IsName name) :
    (p.join ⟨name⟩).IsTrim := by
  have hof : (⟨name⟩ : Path) = ofNames [name] := by
    simp [ofNames, ofChars, List.intercalate]
  have hall : ∀ s ∈ [name], IsName s := by simpa using hname
  rw [hof]
  exact (isTrim_ofNames hall (by simp)).join (isAbsolute_ofNames hall)

end Path

/-- The names of extraction directories are proper. -/
theorem isName_extractionDir (n : Nat) :
    IsName (Extraction.dirLead ++ FileSystem.sixDigits n) := by
  have hlist : (Extraction.dirLead ++ FileSystem.sixDigits n).toList =
      '_' :: 'b' :: 'p' :: (FileSystem.sixDigits n).toList := by
    rw [String.toList_append]
    rfl
  have hne {s : String} (hs : s.toList.head? ≠ some '_') :
      Extraction.dirLead ++ FileSystem.sixDigits n ≠ s := by
    rintro rfl
    rw [hlist] at hs
    exact hs rfl
  refine ⟨hne (by decide), hne (by decide), hne (by decide), ?_⟩
  have hdigit : '/' ∉ Nat.toDigits 10 n := fun h => by
    cases Nat.isDigit_of_mem_toDigits (by decide) (by decide) h
  rw [hlist, FileSystem.sixDigits, String.toList_ofList]
  simp [hdigit]

namespace FileSystem

open Call

variable {fs fs' base : FileSystem} {dir p : Path} {root : Location}

/-! ## A new directory -/

/-- A directory stays one when another one is put somewhere. -/
theorem isDirectoryAt_put {loc : Location} (h : fs.isDirectoryAt loc = true) (mode : Mode)
    (name : String) (d : Location) :
    (fs.put (name :: d) (.directory mode)).isDirectoryAt loc = true := by
  by_cases he : loc = name :: d
  · subst he
    exact isDirectoryAt_iff.mpr ⟨mode, node?_put_self ..⟩
  · rwa [isDirectoryAt, directoryMode?, node?_put_of_ne fs _ he]

/-- A directory can be put where there is one, with other permissions. -/
theorem WellFormed.put_directory (hwf : fs.WellFormed) {name : String} {d : Location}
    (hname : IsName name) (hdir : fs.isDirectoryAt d = true) (mode : Mode) :
    (fs.put (name :: d) (.directory mode)).WellFormed := by
  refine ⟨fun e he n l heq => ?_, fun e he n heq => ?_, hwf.working⟩
  · rcases List.mem_cons.mp he with rfl | he
    · obtain ⟨rfl, rfl⟩ := List.cons.inj heq
      exact ⟨hname, isDirectoryAt_put hdir mode _ _⟩
    · obtain ⟨hn, hl⟩ := hwf.rooted e (List.mem_filter.mp he).1 n l heq
      exact ⟨hn, isDirectoryAt_put hl mode _ _⟩
  · rcases List.mem_cons.mp he with rfl | he
    · cases heq
    · exact hwf.stored e (List.mem_filter.mp he).1 n heq

/-- A path names a location that is free. -/
structure NewPlace (fs : FileSystem) (dir : Path) (root : Location) : Prop where
  trim : dir.IsTrim
  vacant : ∃ d name, root = name :: d ∧ fs.locateName dir = .ok (.vacant d name)

theorem NewPlace.free (h : fs.NewPlace dir root) : fs.node? root = none := by
  obtain ⟨d, name, rfl, hloc⟩ := h.vacant
  exact (locateName_eq_ok.mp hloc).2.of_vacant.2

/-- **A directory stands at a location that was free**, and nothing has changed but what is
inside it. -/
structure Hosts (base : FileSystem) (root : Location) (fs : FileSystem) : Prop where
  wellFormed : fs.WellFormed
  outside : SameOutside root base fs
  directory : fs.isDirectoryAt root = true

/-- **Making a directory under a new name** fails and leaves everything as it was, or makes
one at a free place. -/
theorem makeUniqueDir_ensures (hwf : fs.WellFormed) (parent : Path) {lead : String}
    (hlead : ∀ n, IsName (lead ++ sixDigits n)) :
    (makeUniqueDir parent lead).Ensures fs fun r fs' => fs'.WellFormed ∧
      match r with
      | .error _ => ChangedOnly (fun _ => False) fs fs'
      | .ok dir => ∃ root, fs.NewPlace dir root ∧ fs.Hosts root fs' := by
  refine .ask (.ask (.ask (.ask (.change ?_))))
  generalize (((List.range (fs.nodes.length + 1)).map (fs.serial + ·)).find? _).getD _ = n
  generalize (if parent.isAbsolute then parent else fs.workingPath.join parent) = outer
  -- the number that has been used does not matter from here on
  have hnode (loc : Location) : { fs with serial := n + 1 }.node? loc = fs.node? loc := by
    cases loc <;> rfl
  have hentry (loc : Location) : FileSystem.entry? { fs with serial := n + 1 } loc =
    fs.entry? loc := by
    rw [FileSystem.entry?, FileSystem.entry?, hnode]
    rfl
  have hwf₁ : { fs with serial := n + 1 }.WellFormed := by
    refine ⟨fun e he name dir heq => ?_, hwf.stored, hwf.working⟩
    obtain ⟨hname, hdir⟩ := hwf.rooted e he name dir heq
    exact ⟨hname, by rwa [isDirectoryAt, directoryMode?, hnode]⟩
  have hsame : ChangedOnly (fun _ => False) fs { fs with serial := n + 1 } :=
    ⟨⟨[], rfl, by simp, fun loc _ => hentry loc⟩, rfl⟩
  have htrim := Path.isTrim_join_name outer (hlead n)
  unfold Ensures
  simp only [apply_bind, apply_withError]
  rcases makeDir_apply (outer.join ⟨lead ++ sixDigits n⟩) { fs with serial := n + 1 } with
    ⟨e, h⟩ | ⟨d, name, mode, hloc, h⟩
  · rw [h]
    exact ⟨hwf₁, hsame⟩
  · rw [h]
    have hname := (locateName_eq_ok.mp hloc).2.isName_of_vacant fun x hx => (Path.mem_steps hx).2
    obtain ⟨hdir, -⟩ := (locateName_eq_ok.mp hloc).2.of_vacant
    simp only [mapError_ok, setMode_of_find (find_of_made hloc), apply_pure, setModeAt,
      node?_put_self]
    have hwf₂ := hwf₁.put_directory hname (isDirectoryAt_iff.mpr hdir) mode
    have hdir₂ := isDirectoryAt_put (isDirectoryAt_iff.mpr hdir) mode name d
    refine ⟨hwf₂.put_directory hname hdir₂ Mode.ownersOnly, name :: d, ⟨htrim, d, name, rfl, ?_⟩,
      hwf₂.put_directory hname hdir₂ Mode.ownersOnly, ?_, ?_⟩
    · rw [← hloc, locateName_congr hnode rfl]
    · have hput {fs : FileSystem} {node : Node} : SameOutside (name :: d) fs
          (fs.put (name :: d) node) :=
        .of_changedOnly (changedOnly_put (P := (· = name :: d)) node rfl) fun _ h => by simp [h]
      exact (SameOutside.trans (.of_changedOnly hsame (by simp)) hput).trans hput
    · exact isDirectoryAt_iff.mpr ⟨_, node?_put_self ..⟩

/-- A new directory has a path. -/
theorem makeUniqueDir_text (parent : Path) {lead : String} (hlead : lead ≠ "") (fs : FileSystem) :
    (makeUniqueDir parent lead).Ensures fs fun r _ => ∀ dir, r = .ok dir → dir.text ≠ "" := by
  refine .ask (.ask (.ask (.ask (.change ?_))))
  refine Ensures.bind (R := fun _ _ => True) trivial (fun _ _ _ => ?_) fun _ _ _ _ h => by cases h
  refine Ensures.bind (R := fun _ _ => True) trivial (fun _ _ _ => ?_) fun _ _ _ _ h => by cases h
  refine ensures_pure ?_
  rintro _ ⟨⟩
  exact Path.join_ne_empty _ (by simp [hlead])

/-- **Making an extraction directory** makes what is missing of its parent, and then a
directory at a free place, or fails. -/
theorem makeDir_ensures (hwf : fs.WellFormed) (parent : Path) :
    (Extraction.makeDir parent).Ensures fs fun r fs' => fs'.WellFormed ∧
      ∃ base, base.WellFormed ∧ NodesIn fs base ∧
        ChangedOnly (fs.MadeFor parent base) fs base ∧
        match r with
        | .error _ => ChangedOnly (fun _ => False) base fs'
        | .ok dir => ∃ root, base.NewPlace dir root ∧ base.Hosts root fs' := by
  refine Ensures.withError (R := fun r fs' => fs'.WellFormed ∧
      ∃ base, base.WellFormed ∧ NodesIn fs base ∧
        ChangedOnly (fs.MadeFor parent base) fs base ∧
        match r with
        | .error _ => ChangedOnly (fun _ => False) base fs'
        | .ok dir => ∃ root, base.NewPlace dir root ∧ base.Hosts root fs') ?_ ?_
  · refine (makeDirAll_ensures hwf parent).bind ?_ ?_
    · rintro - base ⟨hwf', hin, hchanged⟩
      exact (makeUniqueDir_ensures hwf' parent isName_extractionDir).mono fun r fs' h =>
        ⟨h.1, base, hwf', hin, hchanged, h.2⟩
    · rintro e base ⟨hwf', hin, hchanged⟩
      exact ⟨hwf', base, hwf', hin, hchanged, .refl base⟩
  · rintro (e | dir) fs' h <;> exact h

/-! ## The directory while it is there -/

namespace Hosts
variable (hbase : base.WellFormed) (hplace : base.NewPlace dir root) (h : base.Hosts root fs)
include hbase hplace h

/-- The path of the directory leads to it. -/
theorem find (follow : Bool) : fs.find follow dir = .ok root := by
  obtain ⟨d, name, rfl, hloc⟩ := hplace.vacant
  have hshows := h.outside.shows hbase hplace.free
  obtain ⟨mode, hmode⟩ := isDirectoryAt_iff.mp h.directory
  cases follow with
  | true =>
    obtain ⟨hcheck, hleads⟩ := locateName_eq_ok.mp hloc
    rw [find_eq_ok, locate_eq_ok, hplace.trim.walkSteps, startOf, h.outside.workingDir, ← startOf]
    exact ⟨hcheck, hleads.fill hshows hmode (by simp)⟩
  | false =>
    have hname := locateName_of_free hloc hshows h.outside.workingDir
    rw [hmode] at hname
    exact find_of_locateName hplace.trim hname

theorem canonical : fs.Canonical dir root := by
  exact canonical_of_find (h.find hbase hplace true)

theorem makeDirAll : ((FileSystem.makeDirAll dir).apply fs).2 = fs := by
  obtain ⟨d, name, rfl, hloc⟩ := hplace.vacant
  obtain ⟨mode, hmode⟩ := isDirectoryAt_iff.mp h.directory
  have hname := locateName_of_free hloc (h.outside.shows hbase hplace.free) h.outside.workingDir
  rw [hmode] at hname
  refine congrArg Prod.snd (makeDirAll_of_present hname ?_)
  rw [isDirectory, h.find hbase hplace true]
  exact h.directory

/-- **What a call may touch that unpacks below the directory** is inside it. -/
theorem inside_of_mayTouch {loc : Location} (hloc : fs.MayTouch dir loc) :
    Location.Inside root loc := by
  rw [MayTouch, h.makeDirAll hbase hplace] at hloc
  rcases hloc with ⟨root', hcanon, ⟨node, hnode⟩, hinside⟩ | hmade
  · obtain ⟨mode, hmode⟩ := isDirectoryAt_iff.mp h.directory
    have hpath := hcanon.symm.trans
      (canonicalize_eq_ok.mpr ⟨root, rfl, h.canonical hbase hplace⟩)
    obtain rfl := Location.path_inj (h.wellFormed.names hnode) (h.wellFormed.names hmode)
      (Except.ok.inj hpath)
    exact hinside
  · obtain ⟨mode, hmode⟩ := isDirectoryAt_iff.mp hmade.directory
    rw [hmade.free] at hmode
    cases hmode

theorem keepsTo (hkeeps : fs.KeepsTo dir fs') : base.Hosts root fs' := by
  obtain ⟨hwf', hchanged⟩ := hkeeps
  have hinside := hchanged.mono fun _ => h.inside_of_mayTouch hbase hplace
  refine ⟨hwf', h.outside.trans (.of_changedOnly hinside fun _ hloc => hloc.1), ?_⟩
  have hroot : fs'.entry? root = fs.entry? root := hinside.entry? fun hloc => hloc.2 rfl
  obtain ⟨mode, hmode⟩ := isDirectoryAt_iff.mp h.directory
  have he : fs.entry? root = some (.directory mode) := by rw [FileSystem.entry?, hmode]; rfl
  obtain ⟨node, hnode, hentry⟩ := Option.map_eq_some_iff.mp (hroot.trans he)
  cases node <;> cases hentry
  exact isDirectoryAt_iff.mpr ⟨mode, hnode⟩

/-- **Extracting entries** leaves the directory where it is, and everything outside as it
was. -/
theorem unpacked [Zlib.Inflater] {a : Archive} {policy : UnpackPolicy} {resolver : Resolver}
    (hunpacked : Launch.Unpacked a dir policy resolver fs fs') : base.Hosts root fs' := by
  induction hunpacked with
  | none => exact h
  | entry r pool _ ih =>
    refine ih (h.keepsTo hbase hplace ?_)
    rw [Extraction.extractEntry]
    split
    · exact resolver.resolve_ensures h.wellFormed r.name dir pool
    · exact a.unpack_ensures h.wellFormed r dir policy

end Hosts

/-- What is open does not matter for what a directory holds. -/
theorem Hosts.quiet (h : base.Hosts root fs) (hq : Quiet fs fs') : base.Hosts root fs' := by
  refine ⟨hq.wellFormed h.wellFormed,
    h.outside.trans (.of_changedOnly (hq.changedOnly (P := fun _ => False)) (by simp)), ?_⟩
  obtain ⟨files, rfl⟩ := hq
  rw [isDirectoryAt_openFiles]
  exact h.directory

end FileSystem

namespace Launch

/-- What has been extracted has a path. -/
theorem Extracted.text_ne_empty [Zlib.Inflater] {env : Surroundings τ} {setup : LaunchSetup}
    {a : Archive} {s s' : LaunchState} {w w' : World τ} {dir : Path} {heard : List (LaunchStep τ)}
    (h : Extracted env setup a s w (.ok dir) s' heard w') : dir.text ≠ "" := by
  cases h with
  | filled hmake =>
    have hmade : (Extraction.makeDir (extractionParent s w)).Ensures w.files fun r _ =>
        ∀ dir, r = .ok dir → dir.text ≠ "" := by
      refine FileSystem.Call.Ensures.withError (R := fun r _ => ∀ dir, r = .ok dir → dir.text ≠ "")
        ?_ fun r _ h dir hr => h dir (mapError_eq_ok.mp hr)
      refine FileSystem.Call.Ensures.bind (R := fun _ _ => True) trivial (fun _ fs _ => ?_)
        fun _ _ _ _ h => by cases h
      exact FileSystem.makeUniqueDir_text _ (by decide) fs
    rw [FileSystem.Call.Ensures, hmake] at hmade
    exact hmade dir rfl

end Launch
end Stowage
