import Stowage.Proofs.Files.Missing

/-!
# What is said about where a path lands

`resolveUnder` looks for the innermost ancestor of a path that is there and continues
from it lexically.  For an absolute path this module says what it answers
(`resolveUnder_lands`).

* The search ends, since every ancestor is shorter than the one before
  (`Path.length_parent?_lt`).
* A path that is there lands at its canonical path.
* A path that is not found breaks off somewhere (`exists_breaksOff`).  If no `..` comes
  after that, it lands below, by the names that are left (`Verdict`).  This is where it
  leads when the missing directories have been made, be it by `makeDirAll` or otherwise
  (`BreaksOff.made`, `BreaksOff.made_all`).
* No answer leaves the root.

A link that leads nowhere may stand where the path breaks off, and then nobody knows
where the path would go.  The answer is nothing only if this link is seen (`SeesLink`).
It is not seen where something comes after its name, such as a slash, since then the
call that looks for it follows it (`dangling_link_unseen`).
-/

namespace Stowage.FileSystem

open Result Call Stowage.Path

variable {fs fs' : FileSystem} {dots : DotNames} {last : LastName} {root base : Location}
  {p q a a' : Path} {n : String} {names : List String} {rest : List Component}

/-! ## The search -/

/-- **At an ancestor that is there** the search is over, and what has been cut off is put
below it. -/
theorem landing_of_canonical (hwf : fs.WellFormed) (hroot : fs.isDirectoryAt root = true)
    (h : fs.Canonical a base) (hn : ∀ s ∈ names, IsName s) :
    fs.landing root.path a.ancestors (names.map .name) =
      .ok (if Location.within root (names.reverse ++ base) then
        some (base.path.join (.ofNames names)) else none) := by
  obtain ⟨mode, hmode⟩ := isDirectoryAt_iff.mp hroot
  obtain ⟨node, hnode, -⟩ := h.holdsPlain hwf
  rw [ancestors, ancestorsUpTo, landing, canonicalize_eq_ok.mpr ⟨base, rfl, h⟩]
  simp only [reduce_names, List.reverse_reverse,
    Location.startsWith_path_iff (hwf.names hmode) (hwf.names hnode) hn]

/-- **Where a path breaks off**, a link that is seen ends the search, and otherwise it goes on
to where the path has led. -/
theorem BreaksOff.resolveUnder_eq (hwf : fs.WellFormed) (habs : p.isAbsolute = true)
    (hcheck : checkPath p = .ok ()) (h : fs.BreaksOff p a a' base n rest) (root : Path) :
    fs.resolveUnder root p = if fs.isPresent a' then .ok none
      else fs.landing root a.ancestors (.name n :: rest) := by
  have hlast : a'.lastComponent? = some (.name n) := by
    rw [lastComponent?, h.missing_components, List.getLast?_concat]
  rw [resolveUnder, landing_missing hwf habs hcheck h, List.append_nil,
    ancestors_of_parent? h.parent, landing, h.notFound]
  simp only [hlast]

/-! ## Making what is missing -/

/-- Directories have been made by some names, which are short enough for that, each in the one
before, and nothing has gone. -/
structure MadeFrom (fs fs' : FileSystem) (base : Location) (names : List String) : Prop where
  keeps : NodesIn fs fs'
  directories : ∀ pre, pre ≠ [] → pre <+: names →
    ∃ mode, fs'.node? (pre.reverse ++ base) = some (.directory mode) ∧ mode.allows .pass = true
  short : ∀ m ∈ names, m.utf8ByteSize ≤ maxNameBytes

/-- A walk along the names of directories goes straight down. -/
theorem leads_down {b : Nat} (hn : ∀ m ∈ names, IsName m)
    (hshort : ∀ m ∈ names, m.utf8ByteSize ≤ maxNameBytes)
    (hdirs : ∀ pre, pre <+: names →
      ∃ mode, fs.node? (pre.reverse ++ base) = some (.directory mode) ∧ mode.allows .pass = true) :
    Leads fs dots .followed b base names (.present (names.reverse ++ base)) := by
  induction names generalizing base with
  | nil => exact .arrive b base
  | cons m names ih =>
    have hm := hn m List.mem_cons_self
    have hdirs' (pre) (hpre : pre <+: names) : ∃ mode,
        fs.node? (pre.reverse ++ m :: base) = some (.directory mode) ∧
          mode.allows .pass = true := by
      simpa using hdirs (m :: pre) (List.cons_prefix_cons.mpr ⟨rfl, hpre⟩)
    have hrest := ih (fun x hx => hn x (List.mem_cons_of_mem _ hx))
      (fun x hx => hshort x (List.mem_cons_of_mem _ hx)) hdirs'
    obtain ⟨mode, hmode, -⟩ := hdirs' [] List.nil_prefix
    rw [List.reverse_cons, List.append_assoc]
    exact .enter ⟨⟨hm.ne_empty, hm.ne_dot, hm.ne_up⟩, hdirs [] List.nil_prefix, by simp,
      hshort m List.mem_cons_self⟩ hmode (by simp) hrest

namespace BreaksOff
variable (h : fs.BreaksOff p a a' base n rest) (hup : Component.up ∉ rest)
include h hup

/-- Without `..`, only names come after the missing one. -/
theorem components_eq :
    p.components = a.components ++ (n :: rest.map Component.text).map .name := by
  rw [h.components, List.map_cons, ← eq_map_name h.isStep hup]

theorem isName_of_mem : ∀ m ∈ n :: rest.map Component.text, IsName m := fun m hm =>
  isName_of_mem_components (p := p) <| by
    rw [h.components_eq hup]
    exact List.mem_append_right _ (List.mem_map_of_mem hm)

variable (hwf : fs.WellFormed) (habs : p.isAbsolute = true)
include hwf habs

/-- A path that breaks off at a free name lands at or below this name. -/
theorem lands (hfree : fs.node? (n :: base) = none) :
    fs.Lands base p base a.moves (n :: rest.map Component.text) := by
  have hstart : fs.startOf p = fs.startOf a := startOf_congr h.isAbsolute.2.symm
  refine ⟨moves_of_names (h.components_eq hup), hstart ▸ h.canonical.reaches,
    h.isName_of_mem hup, ?_, Location.within_refl base⟩
  rintro m rest' loc he hloc
  obtain ⟨rfl, -⟩ := List.cons.inj he
  obtain ⟨mid, b, hmid, hname⟩ := hloc.of_append (List.cons_ne_nil n [])
  rw [hstart] at hmid
  obtain rfl := Spot.present.inj (hmid.unique h.canonical.reaches)
  have hfound := hname.unique (.free (h.looksUp hwf habs _) hfree)
  cases hfound

variable (hcheck : checkPath p = .ok ())
include hcheck

/-- **When the missing directories have been made**, the path leads to the last of them. -/
theorem made (hmade : fs.MadeFrom fs' base (n :: rest.map Component.text)) :
    fs'.canonicalize p = .ok (Location.path ((n :: rest.map Component.text).reverse ++ base)) := by
  have hstart : fs'.startOf p = fs.startOf a := by
    rw [fs'.startOf_of_isAbsolute habs, fs.startOf_of_isAbsolute (h.isAbsolute.2.trans habs)]
  obtain ⟨b, hresume⟩ := (Leads.mono h.canonical.reaches hmade.keeps).resume
  have hdown : Leads fs' .understood .followed b base (n :: rest.map Component.text)
      (.present ((n :: rest.map Component.text).reverse ++ base)) := by
    refine leads_down (h.isName_of_mem hup) hmade.short fun pre hpre => ?_
    by_cases hne : pre = []
    · obtain ⟨mode, hmode, hpass⟩ := (h.looksUp hwf habs .kept).pass
      exact hne ▸ ⟨mode, hmade.keeps _ _ hmode, hpass⟩
    · exact hmade.directories pre hne hpre
  obtain ⟨mode, hmode, -⟩ := hmade.directories _ (List.cons_ne_nil _ _) List.prefix_rfl
  refine canonicalize_eq_ok.mpr ⟨_, rfl, .of_reaches_directory hcheck ?_ ⟨mode, hmode⟩⟩
  rw [Reaches, moves_of_names (h.components_eq hup), hstart]
  refine leads_of_walk ?_
  rw [hresume _ _ (List.cons_ne_nil _ _) (by simp)]
  exact walk_of_leads hdown

/-- **When the path has been made with its ancestors**, it leads to where its names go on from
the place where it broke off. -/
theorem made_all (hfree : fs.node? (n :: base) = none)
    (hmade : (makeDirAll p).apply fs = (.ok (), fs')) :
    fs'.canonicalize p = .ok (Location.path ((n :: rest.map Component.text).reverse ++ base)) := by
  have hl := h.lands hup hwf habs hfree
  have hkeep : (FileSystem.makeDirAll p).Keeps fun fs' =>
      Preparing fs fs' base base (n :: rest.map Component.text) :=
    keeps_makeDirAll fun q hq fs' d n mode hp h => hl.make hp hq mode h
  have hp := hkeep fs (.start hwf)
  rw [hmade] at hp
  have hparent : p.parent? ≠ none := fun hnone => by
    have hmoves := moves_of_names (h.components_eq hup)
    rw [moves_of_parent?_eq_none hnone] at hmoves
    simp at hmoves
  have hdir := isDirectory_of_makeDirAll (checkPath_eq_ok.mp hcheck).2 hparent hmade
  rw [isDirectory] at hdir
  split at hdir
  · rename_i d hd
    have hd := canonical_of_find hd
    exact canonicalize_eq_ok.mpr ⟨d, by rw [hl.ends_at hp hd.reaches], hd⟩
  · cases hdir

/-- **The answer about a path that breaks off** and does not go up after that. -/
theorem resolveUnder_names (hroot : fs.isDirectoryAt root = true) :
    fs.resolveUnder root.path p = .ok (if fs.isPresent a' then none
      else if Location.within root ((n :: rest.map Component.text).reverse ++ base) then
        some (Location.path ((n :: rest.map Component.text).reverse ++ base))
      else none) := by
  obtain ⟨node, hnode, -⟩ := h.canonical.holdsPlain hwf
  have hnames := h.isName_of_mem hup
  have hcs : Component.name n :: rest = (n :: rest.map Component.text).map .name := by
    rw [List.map_cons, ← eq_map_name h.isStep hup]
  rw [h.resolveUnder_eq hwf habs hcheck, hcs, landing_of_canonical hwf hroot h.canonical hnames,
    Location.join_path (hwf.names hnode) hnames (List.cons_ne_nil _ _)]
  split <;> rfl

end BreaksOff

/-! ## The verdict -/

/-- **The verdict about a path** that has led to `base` with its ancestor `a`, goes on by the
names `n :: names`, and breaks off with `a'`, at the first of them. -/
structure Verdict (fs : FileSystem) (root : Location) (p a a' : Path) (base : Location)
    (n : String) (names : List String) : Prop where
  free_or_link : fs.node? (n :: base) = none ∨
    ∃ target, fs.node? (n :: base) = some (.link target)
  refused : fs.SeesLink a a' base n → fs.resolveUnder root.path p = .ok none
  answered : ¬fs.SeesLink a a' base n → fs.resolveUnder root.path p =
    .ok (if Location.within root ((n :: names).reverse ++ base) then
      some (Location.path ((n :: names).reverse ++ base)) else none)
  made : fs.node? (n :: base) = none → ∀ fs', fs.MadeFrom fs' base (n :: names) ∨
    (makeDirAll p).apply fs = (.ok (), fs') →
      fs'.canonicalize p = .ok (Location.path ((n :: names).reverse ++ base))

theorem BreaksOff.verdict (hwf : fs.WellFormed) (hroot : fs.isDirectoryAt root = true)
    (habs : p.isAbsolute = true) (hcheck : checkPath p = .ok ())
    (h : fs.BreaksOff p a a' base n rest) (hup : Component.up ∉ rest) :
    fs.Verdict root p a a' base n (rest.map Component.text) where
  free_or_link := h.free_or_link hwf
  refused hseen := by
    rw [h.resolveUnder_names hup hwf habs hcheck hroot, (h.isPresent_iff hwf habs).mpr hseen]
    rfl
  answered hseen := by
    rw [h.resolveUnder_names hup hwf habs hcheck hroot, if_neg]
    exact mt (h.isPresent_iff hwf habs).mp hseen
  made hfree fs' := by
    rintro (hmade | hmade)
    · exact h.made hup hwf habs hcheck hmade
    · exact h.made_all hup hwf habs hcheck hfree hmade

/-- **A path that is there** lands at its canonical path. -/
theorem resolveUnder_of_canonical (hwf : fs.WellFormed) (hroot : fs.isDirectoryAt root = true)
    (h : fs.Canonical p base) : fs.resolveUnder root.path p =
      .ok (if Location.within root base then some (base.path.join .empty) else none) :=
  landing_of_canonical hwf hroot h (List.forall_mem_nil IsName)

/-- **No answer leaves the root.** -/
theorem within_of_resolveUnder (hwf : fs.WellFormed) (hroot : fs.isDirectoryAt root = true)
    (h : fs.resolveUnder root.path p = .ok (some q)) :
    ∃ loc, (∀ s ∈ loc, IsName s) ∧ Location.within root loc = true ∧ q.same loc.path = true := by
  obtain ⟨mode, hmode⟩ := isDirectoryAt_iff.mp hroot
  obtain ⟨a, pre, base, names, hbase, hp, -, hred, rfl, hstarts, -⟩ := landing_eq_some h
  obtain ⟨node, hnode, -⟩ := hbase.holdsPlain hwf
  have hnames (s) (hs : s ∈ names.reverse) : IsName s := by
    refine isName_of_mem_components (p := p) ?_
    rw [hp]
    refine List.mem_append_right _ ?_
    simpa using mem_of_reduce hred (List.mem_reverse.mp hs)
  rw [Location.startsWith_path_iff (hwf.names hmode) (hwf.names hnode) hnames,
    List.reverse_reverse] at hstarts
  have hloc : ∀ s ∈ names ++ base, IsName s := fun s hs =>
    (List.mem_append.mp hs).elim (fun hs => hnames s (List.mem_reverse.mpr hs)) (hwf.names hnode s)
  refine ⟨names ++ base, hloc, hstarts, ?_⟩
  rw [same, beq_iff_eq, components_join_ofNames hnames, Location.components_path hloc,
    Location.components_path (hwf.names hnode), List.reverse_append, List.map_append]
  rfl

/-- **Where a path lands.**  The search goes from a path on to its parent, which is shorter, until
there is none.  An absolute path that is there lands at its canonical path, if this is in the root.
One that is not found breaks off somewhere, and if it does not go up after that, there is a verdict
about it.  Any other error is handed on.  And no answer leaves the root. -/
theorem resolveUnder_lands (hwf : fs.WellFormed) (hroot : fs.isDirectoryAt root = true)
    (habs : p.isAbsolute = true) :
    (∀ x outer, parent? x = some outer →
      x.ancestors = x :: outer.ancestors ∧ outer.chars.length < x.chars.length) ∧
    (∀ x, parent? x = none → x.ancestors = [x]) ∧
    (∀ q, fs.canonicalize p = .ok q → ∃ loc, q = loc.path ∧ (q.join .empty).same q = true ∧
      fs.resolveUnder root.path p =
        .ok (if Location.within root loc then some (q.join .empty) else none)) ∧
    (fs.canonicalize p = .error (.os .notFound) →
      (∃ a a' base n rest, fs.BreaksOff p a a' base n rest) ∧
      ∀ a a' base n rest, fs.BreaksOff p a a' base n rest → Component.up ∉ rest →
        fs.Verdict root p a a' base n (rest.map Component.text)) ∧
    (∀ e, e ≠ .os .notFound → fs.canonicalize p = .error e →
      fs.resolveUnder root.path p = .error e) ∧
    ∀ q, fs.resolveUnder root.path p = .ok (some q) → ∃ loc, (∀ s ∈ loc, IsName s) ∧
      Location.within root loc = true ∧ q.same loc.path = true := by
  refine ⟨fun x outer h => ⟨ancestors_of_parent? h, length_parent?_lt h⟩,
    fun x h => ancestors_of_parent?_eq_none h, fun q hq => ?_,
    fun hnot => ⟨exists_breaksOff hwf habs hnot, fun a a' base n rest h hup => ?_⟩,
    fun e he h => ?_, fun q hq => within_of_resolveUnder hwf hroot hq⟩
  · obtain ⟨loc, rfl, hloc⟩ := canonicalize_eq_ok.mp hq
    have hsame : (loc.path.join .empty).components = loc.path.components :=
      (components_join_ofNames (List.forall_mem_nil IsName) loc.path).trans (List.append_nil _)
    exact ⟨loc, rfl, beq_iff_eq.mpr hsame, resolveUnder_of_canonical hwf hroot hloc⟩
  · exact h.verdict hwf hroot habs ((canonicalize_eq_notFound hwf habs).mp hnot).1 hup
  · rw [resolveUnder, ancestors, ancestorsUpTo, landing, h]
    split
    · rename_i hok
      cases hok
    · rename_i hnot
      exact absurd (Except.error.inj hnot) he
    · rename_i herror
      rw [← Except.error.inj herror]

/-- A root with a directory in it and a link to this directory. -/
def linkedFiles : FileSystem :=
  ⟨[(["root"], .directory Mode.directory), (["real", "root"], .directory Mode.directory),
    (["in", "root"], .link "real")], [], [], [], 0, []⟩

/-- The verdict about a path that goes through a link and on by two names. -/
theorem resolveUnder_lands_linked :
    linkedFiles.resolveUnder ⟨"/root"⟩ ⟨"/root/in/new/file"⟩ = .ok (some ⟨"/root/real/new/file"⟩) ∧
      ∃ fs', (makeDirAll ⟨"/root/in/new/file"⟩).apply linkedFiles = (.ok (), fs') ∧
        fs'.canonicalize ⟨"/root/in/new/file"⟩ = .ok ⟨"/root/real/new/file"⟩ := by
  have hnot : linkedFiles.canonicalize ⟨"/root/in/new/file"⟩ = .error (.os .notFound) := by
    decide +kernel
  have hbreaks : linkedFiles.BreaksOff ⟨"/root/in/new/file"⟩ ⟨"/root/in"⟩ ⟨"/root/in/new"⟩
      ["real", "root"] "new" [.name "file"] :=
    { ancestor := by decide +kernel
      parent := by decide +kernel
      components := by decide +kernel
      canonical := ⟨by decide +kernel, leads_of_walk (by decide +kernel)⟩
      notFound := by decide +kernel }
  have hfree : linkedFiles.node? ["new", "real", "root"] = none := by decide +kernel
  have hwithin : Location.within ["root"] ["file", "new", "real", "root"] = true := by decide
  have hpath : Location.path ["file", "new", "real", "root"] = ⟨"/root/real/new/file"⟩ := by
    decide +kernel
  have hroot : Location.path ["root"] = ⟨"/root"⟩ := by decide +kernel
  have hwf : linkedFiles.WellFormed := by decide +kernel
  have hdir : linkedFiles.isDirectoryAt ["root"] = true := by decide +kernel
  have habs : isAbsolute ⟨"/root/in/new/file"⟩ = true := by decide +kernel
  obtain ⟨-, -, -, hverdict, -⟩ := resolveUnder_lands hwf hdir habs
  have hv := (hverdict hnot).2 _ _ _ _ _ hbreaks (by decide)
  have hanswer := hv.answered fun hseen => by
    obtain ⟨target, hlink⟩ := hseen.link
    rw [hfree] at hlink
    cases hlink
  have hmade := hv.made hfree
  simp only [List.map_cons, List.map_nil, Component.text, List.reverse_cons, List.reverse_nil,
    List.nil_append, List.cons_append, hwithin, if_true, hpath, hroot] at hanswer hmade
  have hmakes : ((makeDirAll ⟨"/root/in/new/file"⟩).apply linkedFiles).1 = .ok () := by
    decide +kernel
  rcases happly : (makeDirAll ⟨"/root/in/new/file"⟩).apply linkedFiles with ⟨result, fs'⟩
  obtain rfl : result = .ok () := by rw [happly] at hmakes; exact hmakes
  exact ⟨hanswer, fs', rfl, hmade fs' (Or.inr happly)⟩

/-- A root with a link that leads nowhere. -/
def danglingFiles : FileSystem :=
  ⟨[(["root"], .directory Mode.directory), (["gone", "root"], .link "nope")], [], [], [], 0, []⟩

/-- **A link that leads nowhere is overlooked** when a slash comes after its name. -/
theorem dangling_link_unseen :
    danglingFiles.WellFormed ∧
      danglingFiles.canonicalize ⟨"/root"⟩ = .ok ⟨"/root"⟩ ∧
      danglingFiles.isDirectory ⟨"/root"⟩ = true ∧
      danglingFiles.node? ["gone", "root"] = some (.link "nope") ∧
      danglingFiles.canonicalize ⟨"/root/gone/"⟩ = .error (.os .notFound) ∧
      danglingFiles.resolveUnder ⟨"/root"⟩ ⟨"/root/gone"⟩ = .ok none ∧
      danglingFiles.resolveUnder ⟨"/root"⟩ ⟨"/root/gone/"⟩ = .ok (some ⟨"/root/gone"⟩) := by
  decide +kernel

end Stowage.FileSystem
