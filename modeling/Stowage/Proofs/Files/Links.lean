import Stowage.Proofs.Files.Descent

/-!
# Links that stay inside

Before a link is made, `linkStaysUnder` asks where its target leads.  The answer is about
the moment.  This module says when it is an answer for good.

* `Firm` is about a link whose target, as far as it leads through directories, ends in
  the root, and goes up nowhere from there.  More directories keep it so
  (`Firm.of_directories`), and if all links in a root are firm, then no walk that starts
  in the root and goes up nowhere leaves it (`LinksFirm.within_of_leads`).
* `Settled` is what has to be added to the answer: the part of the target that does not
  lead through directories yet has no `..`, and it does not start with a link outside
  the root.  An accepted target that is settled is firm (`Firm.of_linkStaysUnder`).
-/

namespace Stowage.FileSystem

open Result

variable {fs fs' : FileSystem} {dots : DotNames} {last : LastName} {root base cur dir : Location}
  {name target : String} {p q link : Path} {done missing : List String}

/-! ## Firm links -/

/-- The way of a link's target through directories, and the names that are left. -/
def way (fs : FileSystem) (dir : Location) (target : String) : Location × List String :=
  fs.descend dir (Path.walkSteps ⟨target⟩)

/-- **A link in `dir` is firm**: its way ends in the root, and nothing that is left of
its target goes up. -/
structure Firm (fs : FileSystem) (root dir : Location) (target : String) : Prop where
  relative : Path.isAbsolute ⟨target⟩ = false
  inside : Location.within root (fs.way dir target).1 = true
  ahead : ".." ∉ (fs.way dir target).2

/-- All links below the root are firm. -/
def LinksFirm (fs : FileSystem) (root : Location) : Prop :=
  ∀ dir name target, Location.within root dir = true →
    fs.node? (name :: dir) = some (.link target) → fs.Firm root dir target

/-- **A firm link stays firm** as long as no directory is removed. -/
theorem Firm.of_directories (h : fs.Firm root dir target)
    (hdirs : ∀ loc, fs.isDirectoryAt loc = true → fs'.isDirectoryAt loc = true) :
    fs'.Firm root dir target := by
  have hway : fs'.way dir target = fs'.descend (fs.way dir target).1 (fs.way dir target).2 :=
    descend_of_directories hdirs dir _
  refine ⟨h.relative, ?_, ?_⟩
  · rw [hway]
    exact descend_within _ _ h.ahead h.inside
  · rw [hway]
    exact fun hup => h.ahead ((descend_suffix _ _).subset hup)

/-- **Where all links are firm, no walk leaves the root** that starts in it and goes up
nowhere. -/
theorem LinksFirm.within_of_leads (hfirm : fs.LinksFirm root) {b : Nat} {loc : Location}
    {names : List String} (h : Leads fs dots last b cur names (.present loc))
    (hcur : Location.within root cur = true) (hup : ".." ∉ names) :
    Location.within root loc = true := by
  -- a link starts a new walk with a smaller budget, and every other step uses up a name
  induction b using Nat.strongRecOn generalizing cur names with
  | ind b ihb =>
    induction names generalizing cur with
    | nil => cases h; exact hcur
    | cons name rest ih =>
      obtain ⟨hname, hrest⟩ := not_or.mp (fun he => hup (List.mem_cons.mpr he))
      cases h with
      | skip _ h | here _ h => exact ih h hcur hrest
      | up => exact absurd rfl hname
      | keep => exact Location.within_cons name hcur
      | @follow b _ _ target _ _ _ hnode _ h =>
        have hlink := hfirm _ _ _ hcur hnode
        rw [linkStart, hlink.relative] at h
        refine ihb b (Nat.lt_succ_self b) h.of_descend hlink.inside fun he => ?_
        exact (List.mem_append.mp he).elim hlink.ahead hrest
      | enter _ _ _ h => exact ih h (Location.within_cons name hcur) hrest

/-! ## Where the path of a link leads -/

/-- Below the root directory the way to a directory is straight. -/
theorem descend_reverse (hwf : fs.WellFormed) (hdir : fs.isDirectoryAt dir = true) :
    fs.descend [] dir.reverse = (dir, []) := by
  induction dir with
  | nil => rfl
  | cons name dir ih =>
    obtain ⟨mode, hmode⟩ := isDirectoryAt_iff.mp hdir
    obtain ⟨hname, hparent⟩ := hwf.parent hmode
    rw [List.reverse_cons, descend_append, ih (isDirectoryAt_iff.mpr hparent), if_pos rfl,
      descend_name (not_or.mpr ⟨hname.ne_empty, hname.ne_dot⟩) hname.ne_up, if_pos hdir]
    rfl

/-- **What a location holds leads into the root, or nowhere**: neither its canonical path
nor a call that follows links finds anything outside. -/
structure LeadsInto (fs : FileSystem) (root loc : Location) : Prop where
  canonical : ∀ q, fs.canonicalize loc.path = .ok q →
    ∃ stop, q = stop.path ∧ Location.within root stop = true
  found : ∀ stop, fs.find true loc.path = .ok stop → Location.within root stop = true

/-- **Where all links are firm, all of them lead into the root.** -/
theorem LinksFirm.leadsInto (hfirm : fs.LinksFirm root) (hwf : fs.WellFormed)
    (hdir : Location.within root dir = true)
    (hnode : fs.node? (name :: dir) = some (.link target)) :
    fs.LeadsInto root (name :: dir) := by
  have hreach (stop : Location)
      (h : fs.Reaches .followed (Location.path (name :: dir)) (.present stop)) :
      Location.within root stop = true := by
    obtain ⟨hname, hparent⟩ := hwf.parent hnode
    rw [Reaches, startOf, Location.isAbsolute_path, if_pos rfl,
      Location.moves_path (hwf.names hnode), List.reverse_cons] at h
    have h := h.of_descend
    rw [descend_reverse hwf (isDirectoryAt_iff.mpr hparent)] at h
    exact hfirm.within_of_leads h hdir (by simpa using hname.ne_up.symm)
  refine ⟨fun q hq => ?_, fun stop hstop => ?_⟩
  · obtain ⟨stop, rfl, hc⟩ := canonicalize_eq_ok.mp hq
    exact ⟨stop, rfl, hreach stop hc.reaches⟩
  · exact hreach stop (reaches_of_walkSteps (locate_eq_ok.mp (find_eq_ok.mp hstop)).2)

/-! ## Links that are accepted -/

/-- Whether a location holds a link. -/
def isLinkAt (fs : FileSystem) (loc : Location) : Bool :=
  match fs.node? loc with
  | some (.link _) => true
  | _ => false

theorem isLinkAt_iff {loc : Location} :
    fs.isLinkAt loc = true ↔ ∃ target, fs.node? loc = some (.link target) := by
  unfold isLinkAt
  cases fs.node? loc with
  | none => simp
  | some node => cases node <;> simp

/-- **The target of a link in `dir` is settled**: the names that do not lead through
directories hold no `..`, and they start in the root or with no link. -/
structure Settled (fs : FileSystem) (root dir : Location) (target : String) : Prop where
  ahead : ".." ∉ (fs.way dir target).2
  start : Location.within root (fs.way dir target).1 = true ∨
    ∀ name ∈ (fs.way dir target).2.head?, fs.isLinkAt (name :: (fs.way dir target).1) = false

instance (fs : FileSystem) (root dir : Location) (target : String) :
    Decidable (fs.Settled root dir target) :=
  decidable_of_iff (_ ∧ _) ⟨fun h => ⟨h.1, h.2⟩, fun h => ⟨h.1, h.2⟩⟩

/-- From `dir`, some names lead to `base`, and the first of the others leads nowhere.  If
no name goes up, the others lead into the root. -/
structure LandsFrom (fs : FileSystem) (root dir : Location) (base : Location)
    (done missing : List String) : Prop where
  arrives : ∃ b, Leads fs .understood .followed b dir done (.present base)
  breaks : ∀ m rest, missing = m :: rest → m ≠ ".." ∧ ¬fs.HoldsPlain (m :: base)
  inside : ".." ∉ missing → Location.within root (missing.reverse ++ base) = true

theorem linkStaysUnder_eq_true {root target : Path} (hp : link.parent? = some p)
    (h : fs.linkStaysUnder root link target = .ok true) :
    target.isAbsolute = false ∧ ∃ q, fs.resolveUnder root (p.join target) = .ok (some q) := by
  rw [linkStaysUnder, hp] at h
  split at h
  · cases h
  rename_i habs
  refine ⟨by simpa using habs, ?_⟩
  rw [Option.getD_some] at h
  cases hq : fs.resolveUnder root (p.join target) with
  | error e => rw [hq] at h; cases h
  | ok answer =>
    cases answer with
    | none => rw [hq] at h; cases h
    | some q => exact ⟨q, rfl⟩

/-- **A normalised path in the root** gives a location in the root, if nothing has gone
up. -/
theorem within_of_reduce {cs : List Component} {stack : List String}
    (hroot : ∀ s ∈ root, IsName s) (hbase : ∀ s ∈ base, IsName s)
    (hsteps : ∀ c ∈ cs, c.isStep = true) (hnames : ∀ s, Component.name s ∈ cs → IsName s)
    (hred : Path.reduce cs = some stack)
    (hstarts : (base.path.join (.ofNames stack.reverse)).startsWith root.path = true)
    (hup : ".." ∉ cs.map Component.text) :
    Location.within root ((cs.map Component.text).reverse ++ base) = true := by
  have hcs := Path.eq_map_name hsteps fun h => hup (List.mem_map.mpr ⟨_, h, rfl⟩)
  have hproper (s) (hs : s ∈ cs.map Component.text) : IsName s :=
    hnames s (hcs ▸ List.mem_map.mpr ⟨s, hs, rfl⟩)
  rw [hcs, Path.reduce_names] at hred
  obtain rfl := Option.some.inj hred
  rw [List.reverse_reverse] at hstarts
  exact (Location.startsWith_path_iff hroot hbase hproper).mp hstarts

theorem moves_eq_walkSteps (p : Path) : p.moves = p.walkSteps.filter (¬IsIdleStep ·) := by
  obtain ⟨zs, hwalk, hzs⟩ := idle_walkSteps p
  have hidle : zs.filter (¬IsIdleStep ·) = [] :=
    List.filter_eq_nil_iff.mpr fun n hn => by simpa using hzs n hn
  rw [hwalk, List.filter_append, hidle, List.append_nil, Path.moves]
  refine List.filter_congr fun n hn => ?_
  have hne := (Path.mem_steps hn).1
  simp [IsIdleStep, hne]

/-- **An accepted target lands**: some of its names lead from the directory of the link to
a node, and what is left would lead from there into the root. -/
theorem landsFrom_of_linkStaysUnder (hwf : fs.WellFormed) (hroot : fs.isDirectoryAt root = true)
    (hparent : link.parent? = some p) (hp : p ≠ .empty)
    (hreach : fs.Reaches .followed p (.present dir)) (hdir : fs.isDirectoryAt dir = true)
    (h : fs.linkStaysUnder root.path link ⟨target⟩ = .ok true) :
    ∃ base done missing, Path.moves ⟨target⟩ = done ++ missing ∧
      fs.LandsFrom root dir base done missing := by
  obtain ⟨hrel, q, hq⟩ := linkStaysUnder_eq_true hparent h
  obtain ⟨a, pre, base, stack, hbase, hpre, habs, hred, rfl, hstarts, hfirst⟩ := landing_eq_some hq
  rw [List.append_nil] at hred
  have habs' : a.isAbsolute = p.isAbsolute := habs.trans (Path.isAbsolute_join hp hrel)
  have hcomps := Path.components_join hp hrel
  -- the directory of the link is there, so what is missing comes after it
  obtain ⟨post, hpost, htravel⟩ : ∃ post, a.components = p.components ++ post ∧
      Path.travel ⟨target⟩ = post ++ pre := by
    rcases List.append_eq_append_iff.mp (hcomps.symm.trans hpre) with
      ⟨cs, hcs, htravel⟩ | ⟨cs, hcs, hpre'⟩
    · exact ⟨cs, hcs, htravel⟩
    cases cs with
    | nil => exact ⟨[], by simpa using hcs.symm, by simpa using hpre'.symm⟩
    | cons c cs =>
      exfalso
      obtain ⟨hnil, -⟩ | ⟨c', rest, a', hcons, hmiss⟩ := hfirst
      · rw [hpre'] at hnil
        cases hnil
      obtain ⟨rfl, -⟩ := List.cons.inj (hpre'.symm.trans hcons)
      exact hmiss.not_passed hreach habs' hcs (Or.inr (isDirectoryAt_iff.mp hdir))
  have hsteps (c) (hc : c ∈ post ++ pre) : c.isStep = true :=
    Path.isStep_of_mem_travel hrel (htravel ▸ hc)
  have hmoves : a.moves = p.moves ++ post.map Component.text := by
    rw [Path.moves_of_components hpost,
      List.filter_eq_self.mpr fun c hc => hsteps c (List.mem_append_left _ hc)]
  have harrives := hbase.reaches
  refine ⟨base, post.map Component.text, pre.map Component.text, ?_, ?_, ?_, ?_⟩
  · rw [Path.moves_eq_travel hrel, htravel, List.map_append]
  · rw [Reaches, startOf_congr habs', hmoves] at harrives
    by_cases hnil : post.map Component.text = []
    · rw [hnil, List.append_nil] at harrives
      rw [hnil, Spot.present.inj (harrives.unique hreach)]
      exact ⟨0, .arrive 0 dir⟩
    · obtain ⟨mid, b, hmid, hrest⟩ := harrives.of_append hnil
      exact ⟨b, Spot.present.inj (hmid.unique hreach) ▸ hrest⟩
  · intro m rest he
    obtain ⟨hnil, -⟩ | ⟨c, rest', a', hcons, hmiss⟩ := hfirst
    · rw [hnil] at he
      cases he
    rw [hcons] at he
    obtain ⟨rfl, -⟩ := List.cons.inj he
    exact hmiss.not_holdsPlain hwf hbase
  · obtain ⟨mode, hrnode⟩ := isDirectoryAt_iff.mp hroot
    obtain ⟨bnode, hbnode, -⟩ := hbase.holdsPlain hwf
    refine within_of_reduce (hwf.names hrnode) (hwf.names hbnode)
      (fun c hc => hsteps c (List.mem_append_right _ hc)) (fun s hs => ?_) hred hstarts
    have hmem : Component.name s ∈ Path.travel ⟨target⟩ :=
      htravel ▸ List.mem_append_right _ hs
    exact Path.isName_of_mem_components (List.mem_filter.mp hmem).1

namespace LandsFrom
variable (hl : fs.LandsFrom root dir base done missing) (hwf : fs.WellFormed)
  (hroot : fs.isDirectoryAt root = true)
include hl hwf hroot

/-- If nothing that is left goes up, then the node that has been reached is in the root. -/
theorem within_base (hup : ".." ∉ missing) : Location.within root base = true :=
  within_of_breaks hwf (holdsPlain_of_directory (isDirectoryAt_iff.mp hroot)) (hl.inside hup)
    fun m rest he => (hl.breaks m rest he).2

/-- **The way of an accepted target ends in the root**, if nothing that is left goes up and
no link outside the root comes first. -/
theorem within_descend (hup : ".." ∉ (fs.descend dir (done ++ missing)).2)
    (hidle : ∀ n ∈ done ++ missing, ¬IsIdleStep n)
    (hstart : Location.within root (fs.descend dir (done ++ missing)).1 = true ∨
      ∀ name ∈ (fs.descend dir (done ++ missing)).2.head?,
        fs.isLinkAt (name :: (fs.descend dir (done ++ missing)).1) = false) :
    Location.within root (fs.descend dir (done ++ missing)).1 = true := by
  obtain ⟨b, harrives⟩ := hl.arrives
  rw [← List.append_nil done] at harrives
  have hrest := harrives.of_descend
  rw [descend_append] at hup hstart ⊢
  rcases hway : fs.descend dir done with ⟨stop, left⟩
  rw [hway] at hup hstart hrest
  cases left with
  | nil =>
    -- the way leads to the node that the names lead to, and the next name stops it
    simp only [if_true] at hup hstart ⊢
    cases hrest
    cases missing with
    | nil => exact hl.within_base hwf hroot nofun
    | cons m rest =>
      obtain ⟨hm, hplain⟩ := hl.breaks m rest rfl
      have hdir : fs.isDirectoryAt (m :: stop) = false := by
        rw [Bool.eq_false_iff]
        exact fun h => hplain (holdsPlain_of_directory (isDirectoryAt_iff.mp h))
      rw [descend_name (hidle m (by simp)) hm, hdir, if_neg Bool.false_ne_true] at hup ⊢
      exact hl.within_base hwf hroot hup
  | cons n left =>
    rw [if_neg (List.cons_ne_nil n left)] at hup hstart ⊢
    refine hstart.elim id fun hlink => ?_
    have hlink := hlink n rfl
    -- the way stops at a file, and below a file there is nothing
    obtain ⟨hn, hne, hdir⟩ := descend_stops fs dir done (congrArg Prod.snd hway)
    rw [hway] at hdir
    have hbase : base = n :: stop := by
      rw [List.append_nil] at hrest
      cases hrest with
      | skip => exact absurd (Or.inl rfl) hn
      | here => exact absurd (Or.inr rfl) hn
      | up => exact absurd rfl hne
      | keep => rfl
      | follow _ hnode =>
        rw [isLinkAt_iff.mpr ⟨_, hnode⟩] at hlink
        cases hlink
      | enter _ _ _ h =>
        cases left with
        | nil => cases h; rfl
        | cons m left =>
          rw [isDirectoryAt_iff.mpr (h.start_isDirectory (List.cons_ne_nil m left))] at hdir
          cases hdir
    have hwithin := hl.within_base hwf hroot fun h => hup (List.mem_append_right _ h)
    rw [hbase, Location.within_iff, List.suffix_cons_iff] at hwithin
    rcases hwithin with rfl | hwithin
    · rw [hroot] at hdir
      cases hdir
    · exact Location.within_iff.mpr hwithin

end LandsFrom

/-- **An accepted target that is settled is firm.** -/
theorem Firm.of_linkStaysUnder (hwf : fs.WellFormed) (hroot : fs.isDirectoryAt root = true)
    (hparent : link.parent? = some p) (hp : p ≠ .empty)
    (hreach : fs.Reaches .followed p (.present dir)) (hdir : fs.isDirectoryAt dir = true)
    (h : fs.linkStaysUnder root.path link ⟨target⟩ = .ok true)
    (hsettled : fs.Settled root dir target) : fs.Firm root dir target := by
  obtain ⟨base, done, missing, hmoves, hl⟩ :=
    landsFrom_of_linkStaysUnder hwf hroot hparent hp hreach hdir h
  have hfilter := fs.descend_filter dir (Path.walkSteps ⟨target⟩)
  rw [← moves_eq_walkSteps, hmoves] at hfilter
  refine ⟨(linkStaysUnder_eq_true hparent h).1, ?_, hsettled.ahead⟩
  have hinside := hl.within_descend hwf hroot ?_ ?_ ?_
  · rwa [hfilter] at hinside
  · rw [hfilter]
    exact fun hup => hsettled.ahead (List.mem_filter.mp hup).1
  · intro n hn
    rw [← hmoves, moves_eq_walkSteps] at hn
    simpa using (List.mem_filter.mp hn).2
  · rw [hfilter]
    refine hsettled.start.imp id fun hlink name hname => hlink name ?_
    -- the first name that is left is not idle
    rw [way]
    cases hleft : (fs.descend dir (Path.walkSteps ⟨target⟩)).2 with
    | nil => rw [hleft] at hname; cases hname
    | cons n left =>
      have hn := (descend_stops fs _ _ hleft).1
      rw [hleft, List.filter_cons_of_pos (by simpa using hn)] at hname
      exact hname

end Stowage.FileSystem
