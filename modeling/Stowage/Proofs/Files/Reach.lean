import Stowage.Proofs.Files.Walk
import Stowage.Proofs.Result
import Stowage.Files.Containment

/-!
# Where paths lead

The calls on a file system walk a path in different ways: dot names are looked up or
understood, a slash at the end counts or does not.  `Reaches` is one way to walk that
they can all be compared with: `.` is left out and `..` is understood.

* A path has a canonical path exactly when it reaches a node
  (`Canonical.reaches`, `Canonical.of_reaches`).
* Where a call finds a free name, the path reaches it (`reaches_of_locateName`).

The second half is about `resolveUnder`.  Its answer is built from the innermost part
of a path that exists and the components after it (`resolveUnder_eq_some`).
-/

namespace Stowage.FileSystem

open Result

variable {fs fs' : FileSystem} {last : LastName} {p q : Path}

/-! ## The common walk -/

/-- A path leads to a spot, with `.` left out and `..` understood. -/
def Reaches (fs : FileSystem) (last : LastName) (p : Path) (s : Spot) : Prop :=
  Leads fs .understood last maxLinks (fs.startOf p) p.moves s

theorem Reaches.unique {s s' : Spot} (h : fs.Reaches last p s) (h' : fs.Reaches last p s') :
    s = s' := Leads.unique h h'

theorem pads_filter (xs : List String) {n : String} (hn : n ≠ ".") :
    Pads (xs ++ [n]) ((xs ++ [n]).filter (· ≠ ".")) := by
  induction xs with
  | nil =>
    have : [n].filter (· ≠ ".") = [n] := by simpa using hn
    rw [List.nil_append, this]
    exact .refl _
  | cons x xs ih =>
    by_cases hx : x = "."
    · rw [List.cons_append, List.filter_cons_of_neg (by simpa using hx)]
      exact .pad (Or.inr hx) (by simp) ih
    · rw [List.cons_append, List.filter_cons_of_pos (by simpa using hx)]
      exact .cons x ih

/-- Where `.` is left out, only idle steps at the end are lost. -/
theorem exists_pads (xs : List String) : ∃ ys zs, xs = ys ++ zs ∧ (∀ n ∈ zs, IsIdleStep n) ∧
    Pads ys (xs.filter (· ≠ ".")) := by
  induction xs with
  | nil => exact ⟨[], [], rfl, nofun, .nil⟩
  | cons x xs ih =>
    obtain ⟨ys, zs, rfl, hidle, hpads⟩ := ih
    by_cases hx : x = "."
    · rw [List.filter_cons_of_neg (by simpa using hx)]
      by_cases hys : ys = []
      · subst hys
        refine ⟨[], x :: zs, rfl, fun n hn => ?_, hpads⟩
        rcases List.mem_cons.mp hn with rfl | hn
        · exact Or.inr hx
        · exact hidle n hn
      · exact ⟨x :: ys, zs, rfl, hidle, .pad (Or.inr hx) hys hpads⟩
    · rw [List.filter_cons_of_pos (by simpa using hx)]
      exact ⟨x :: ys, zs, rfl, hidle, .cons x hpads⟩

/-- Along a trim path, leaving `.` out changes nothing. -/
theorem walk_steps_of_trim (hp : p.IsTrim) (hl : last ≠ .filled) (b : Nat) (cur : Location) :
    fs.walk .understood last b cur p.steps = fs.walk .understood last b cur p.moves := by
  obtain ⟨xs, n, hsteps, hn⟩ := hp.steps
  rw [Path.moves, hsteps]
  exact walk_of_pads hl (pads_filter xs hn)

/-- A walk along idle steps finds no free name. -/
theorem Leads.not_vacant_of_idle {dots : DotNames} {b : Nat} {cur dir : Location}
    {n name : String} (hn : IsIdleStep n) :
    ¬Leads fs dots last b cur [n] (.vacant dir name) := by
  intro h
  cases h with
  | skip _ h | here _ h | up _ h | enter _ _ _ h => cases h
  | free hlook =>
    rcases hn with he | he
    · exact hlook.proper.1 he
    · exact hlook.proper.2.1 he
  | follow hlook =>
    rcases hn with he | he
    · exact hlook.proper.1 he
    · exact hlook.proper.2.1 he

/-- A free name is found without `.` as well. -/
theorem Leads.vacant_filter {dots : DotNames} {b : Nat} {cur dir : Location} {name : String}
    {xs : List String} (hl : last ≠ .filled)
    (h : Leads fs dots last b cur xs (.vacant dir name)) :
    Leads fs .understood last b cur (xs.filter (· ≠ ".")) (.vacant dir name) := by
  rcases List.eq_nil_or_concat xs with rfl | ⟨init, n, rfl⟩
  · cases h
  rw [List.concat_eq_append] at h ⊢
  by_cases hn : n = "."
  · obtain ⟨mid, b', -, h'⟩ := h.of_append (by simp)
    exact absurd h' (not_vacant_of_idle (Or.inr hn))
  · have := walk_of_leads h.understood
    rw [walk_of_pads hl (pads_filter init hn)] at this
    exact leads_of_walk this

/-- A node is found without `.` as well, and without the slash at the end. -/
theorem Leads.present_filter {dots : DotNames} {b : Nat} {cur loc : Location}
    {xs zs : List String} (h : Leads fs dots .followed b cur (xs ++ zs) (.present loc))
    (hz : ∀ n ∈ zs, IsIdleStep n) :
    Leads fs .understood .followed b cur (xs.filter (· ≠ ".")) (.present loc) := by
  obtain ⟨ys, idle, rfl, hidle, hpads⟩ := exists_pads xs
  have hys : Leads fs dots .followed b cur ys (.present loc) := by
    rw [List.append_assoc] at h
    by_cases hne : idle ++ zs = []
    · rwa [hne, List.append_nil] at h
    · obtain ⟨mid, b', h₁, h₂⟩ := h.of_append hne
      rwa [h₂.of_idle fun n hn => (List.mem_append.mp hn).elim (hidle n) (hz n)]
  have hw := walk_of_leads hys.understood
  rw [walk_of_pads (by simp) hpads] at hw
  exact leads_of_walk hw

/-! ## Calls that look a path up -/

theorem walkNames_eq_ok {dots : DotNames} {names : List String} {s : Spot} :
    fs.walkNames dots last p names = .ok s ↔
      Leads fs dots last maxLinks (fs.startOf p) names s := by
  rw [walkNames, mapError_eq_ok, walk_eq_ok_iff]

/-- A path leads to a node, in the way in which canonical paths are looked up. -/
structure Canonical (fs : FileSystem) (p : Path) (loc : Location) : Prop where
  check : checkPath p = .ok ()
  leads : Leads fs .understood .followed maxLinks (fs.startOf p) p.walkSteps (.present loc)

theorem canonicalize_eq_ok :
    fs.canonicalize p = .ok q ↔ ∃ loc, q = loc.path ∧ fs.Canonical p loc := by
  constructor
  · intro h
    obtain ⟨u, hc, h⟩ := bind_eq_ok.mp h
    obtain ⟨s, hs, h⟩ := bind_eq_ok.mp h
    cases s with
    | vacant dir name => cases h
    | present loc => cases h; exact ⟨loc, rfl, hc, walkNames_eq_ok.mp hs⟩
  · rintro ⟨loc, rfl, hc, hl⟩
    exact bind_eq_ok.mpr ⟨(), hc, bind_eq_ok.mpr ⟨_, walkNames_eq_ok.mpr hl, rfl⟩⟩

/-- A canonical path is looked up in the same way wherever a walk sees the same. -/
theorem Canonical.mono_of_shows {loc : Location} (h : fs.Canonical p loc) (hin : Shows fs fs')
    (hdir : fs'.workingDir = fs.workingDir) : fs'.Canonical p loc := by
  refine ⟨h.check, ?_⟩
  rw [startOf, hdir, ← startOf]
  exact h.leads.mono_of_shows hin

theorem idle_walkSteps (p : Path) :
    ∃ zs, p.walkSteps = p.steps ++ zs ∧ ∀ n ∈ zs, IsIdleStep n := by
  refine ⟨_, rfl, fun n hn => ?_⟩
  split at hn
  · exact Or.inl (List.mem_singleton.mp hn)
  · cases hn

/-- What is found with a slash at the end is found without it. -/
theorem reaches_of_walkSteps {dots : DotNames} {loc : Location}
    (h : Leads fs dots .followed maxLinks (fs.startOf p) p.walkSteps (.present loc)) :
    fs.Reaches .followed p (.present loc) := by
  obtain ⟨zs, hsteps, hzs⟩ := idle_walkSteps p
  rw [hsteps] at h
  exact h.present_filter hzs

namespace Canonical
variable {loc : Location} (h : fs.Canonical p loc)
include h

/-- **A path with a canonical path reaches the node that it names.** -/
theorem reaches : fs.Reaches .followed p (.present loc) := reaches_of_walkSteps h.leads

theorem ne_empty : p ≠ .empty := by
  rintro rfl
  cases h.check

/-- The walk along such a path starts at a node that is no link. -/
theorem start_holdsPlain : fs.HoldsPlain (fs.startOf p) := by
  refine holdsPlain_of_directory ?_
  cases habs : p.isAbsolute with
  | true => exact ⟨Mode.directory, by rw [startOf, habs]; rfl⟩
  | false =>
    refine h.leads.start_isDirectory (Path.walkSteps_ne_nil habs fun he => h.ne_empty ?_)
    exact congrArg Path.mk he

/-- A canonical path names a node that is no link. -/
theorem holdsPlain (hwf : fs.WellFormed) : fs.HoldsPlain loc :=
  h.leads.holdsPlain hwf h.start_holdsPlain

end Canonical

/-- A trim path that reaches a node has a canonical path. -/
theorem Canonical.of_reaches (hp : p.IsTrim) (hc : checkPath p = .ok ()) {loc : Location}
    (h : fs.Reaches .followed p (.present loc)) : fs.Canonical p loc := by
  refine ⟨hc, ?_⟩
  have hw := walk_of_leads h
  rw [← walk_steps_of_trim hp (by simp), ← hp.walkSteps] at hw
  exact leads_of_walk hw

/-- **Looking a canonical path up is the common walk**, followed by idle steps. -/
theorem walk_walkSteps (p : Path) : ∃ zs, (∀ n ∈ zs, IsIdleStep n) ∧ ∀ b cur,
    fs.walk .understood .followed b cur p.walkSteps =
      fs.walk .understood .followed b cur (p.moves ++ zs) := by
  obtain ⟨ys, idle, hsteps, hidle, hpads⟩ := exists_pads p.steps
  obtain ⟨zs, hwalk, hzs⟩ := idle_walkSteps p
  refine ⟨idle ++ zs, fun n hn => (List.mem_append.mp hn).elim (hidle n) (hzs n), fun b cur => ?_⟩
  rw [hwalk, hsteps, List.append_assoc]
  exact walk_of_pads (by simp) (hpads.append_right _)

/-- A path that reaches a directory has a canonical path, with idle steps at its end or
without. -/
theorem Canonical.of_reaches_directory (hc : checkPath p = .ok ()) {loc : Location}
    (h : fs.Reaches .followed p (.present loc))
    (hdir : ∃ mode, fs.node? loc = some (.directory mode)) : fs.Canonical p loc := by
  obtain ⟨zs, hzs, hwalk⟩ := fs.walk_walkSteps p
  refine ⟨hc, leads_of_walk ?_⟩
  rw [hwalk]
  by_cases hne : zs = []
  · rw [hne, List.append_nil]
    exact walk_of_leads h
  · obtain ⟨b, hresume⟩ := Leads.resume h
    rw [hresume _ zs hne (by simp)]
    exact walk_of_leads (leads_idle hdir hzs)

/-- A path that is not found for its canonical path misses a name. -/
theorem of_canonicalize_notFound (hp : p ≠ .empty)
    (h : fs.canonicalize p = .error (.os .notFound)) :
    checkPath p = .ok () ∧ ∃ zs, (∀ n ∈ zs, IsIdleStep n) ∧
      IsMissing (fs.walk .understood .followed maxLinks (fs.startOf p) (p.moves ++ zs)) := by
  rcases bind_eq_error.mp h with hc | ⟨u, hc, h⟩
  · rw [checkPath] at hc
    split at hc
    · cases hc
    · split at hc
      · rename_i he
        exact absurd (congrArg Path.mk he) hp
      · cases hc
  obtain ⟨zs, hzs, hwalk⟩ := fs.walk_walkSteps p
  refine ⟨hc, zs, hzs, ?_⟩
  rw [← hwalk]
  rcases bind_eq_error.mp h with hw | ⟨s, hw, h⟩
  · obtain ⟨e, hw, he⟩ := mapError_eq_error.mp hw
    cases he
    exact Or.inl hw
  · cases s with
    | present loc => cases h
    | vacant dir name => exact Or.inr ⟨dir, name, mapError_eq_ok.mp hw⟩

theorem locateName_eq_ok {s : Spot} :
    fs.locateName p = .ok s ↔ checkCallPath p = .ok () ∧
      Leads fs .lookedUp .kept maxLinks (fs.startOf p) p.steps s := by
  constructor
  · intro h
    obtain ⟨u, hc, h⟩ := bind_eq_ok.mp h
    exact ⟨hc, walkNames_eq_ok.mp h⟩
  · rintro ⟨hc, hl⟩
    exact bind_eq_ok.mpr ⟨(), hc, walkNames_eq_ok.mpr hl⟩

theorem locate_eq_ok {s : Spot} :
    fs.locate last p = .ok s ↔ checkCallPath p = .ok () ∧
      Leads fs .lookedUp last maxLinks (fs.startOf p) p.walkSteps s := by
  constructor
  · intro h
    obtain ⟨u, hc, h⟩ := bind_eq_ok.mp h
    exact ⟨hc, walkNames_eq_ok.mp h⟩
  · rintro ⟨hc, hl⟩
    exact bind_eq_ok.mpr ⟨(), hc, walkNames_eq_ok.mpr hl⟩

theorem find_eq_ok {follow : Bool} {loc : Location} :
    fs.find follow p = .ok loc ↔
      fs.locate (if follow then .followed else .kept) p = .ok (.present loc) := by
  constructor
  · intro h
    obtain ⟨s, hs, h⟩ := bind_eq_ok.mp h
    cases s with
    | vacant dir name => cases h
    | present l => cases h; exact hs
  · intro h
    exact bind_eq_ok.mpr ⟨_, h, rfl⟩

/-- A path that leads to a node has a canonical path, which names this node. -/
theorem canonical_of_find {loc : Location} (h : fs.find true p = .ok loc) :
    fs.Canonical p loc := by
  obtain ⟨hcheck, hleads⟩ := locate_eq_ok.mp (find_eq_ok.mp h)
  obtain ⟨u, hcheck, -⟩ := bind_eq_ok.mp hcheck
  exact ⟨hcheck, hleads.understood⟩

/-- What a path names depends on the nodes only. -/
theorem locateName_congr (h : ∀ loc, fs'.node? loc = fs.node? loc)
    (hdir : fs'.workingDir = fs.workingDir) : fs'.locateName p = fs.locateName p := by
  simp only [locateName, walkNames, walk_congr h, startOf, hdir]

/-- **A free name that a call would use is one that the path reaches.** -/
theorem reaches_of_locateName {dir : Location} {name : String}
    (h : fs.locateName p = .ok (.vacant dir name)) :
    fs.Reaches .kept p (.vacant dir name) :=
  (locateName_eq_ok.mp h).2.vacant_filter (by simp)

/-- What is found along the names of a trim path is what the path reaches. -/
theorem reaches_of_leads (hp : p.IsTrim) (hl : last ≠ .filled) {dots : DotNames} {s : Spot}
    (h : Leads fs dots last maxLinks (fs.startOf p) p.steps s) : fs.Reaches last p s := by
  have hw := walk_of_leads h.understood
  rw [walk_steps_of_trim hp hl] at hw
  exact leads_of_walk hw

/-! ## Where a path lands -/

/-- After an ancestor `a` of a path, the component `c` is the first that leads nowhere: with
it, the ancestor is `a'`. -/
structure FirstMissing (fs : FileSystem) (p a a' : Path) (c : Component) : Prop where
  parent : a'.parent? = some a
  last : a'.lastComponent? = some c
  outer : a' = p ∨ ∃ x, Path.parent? x = some a'
  notFound : fs.canonicalize a' = .error (.os .notFound)
  absent : fs.isPresent a' = false

/-- **An answer of `landing`** is a location `base` that exists, followed by the names
that are left of the components after it.  The first of these components, if there is
one, leads nowhere. -/
theorem landing_eq_some {root : Path} {fuel : Nat} {missing : List Component}
    (h : fs.landing root (p.ancestorsUpTo fuel) missing = .ok (some q)) :
    ∃ a pre base names, fs.Canonical a base ∧
      p.components = a.components ++ pre ∧ a.isAbsolute = p.isAbsolute ∧
      Path.reduce (pre ++ missing) = some names ∧
      q = base.path.join (.ofNames names.reverse) ∧ q.startsWith root = true ∧
      (pre = [] ∧ a = p ∨ ∃ c rest a', pre = c :: rest ∧ fs.FirstMissing p a a' c) := by
  induction fuel generalizing p missing with
  | zero => cases h
  | succ fuel ih =>
    rw [Path.ancestorsUpTo, landing] at h
    split at h
    · rename_i base hbase
      obtain ⟨loc, rfl, hcanon⟩ := canonicalize_eq_ok.mp hbase
      have h := Except.ok.inj h
      split at h
      · rename_i names hnames
        simp only at h
        split at h
        · rename_i hroot
          cases h
          exact ⟨p, [], loc, names, hcanon, (List.append_nil _).symm, rfl, hnames, rfl, hroot,
            Or.inl ⟨rfl, rfl⟩⟩
        · cases h
      · cases h
    · rename_i hcanon
      split at h
      · cases h
      rename_i hpresent
      have hpresent : fs.isPresent p = false := by simpa using hpresent
      cases hparent : p.parent? with
      | none =>
        rw [hparent] at h
        split at h <;> simp [landing] at h
      | some outer =>
        rw [hparent] at h
        obtain ⟨c, hlast, hcomps, -⟩ := Path.components_parent? hparent
        rw [hlast] at h
        obtain ⟨a, pre, base, names, hbase, hp, habs, hred, hq, hroot, hfirst⟩ := ih h
        refine ⟨a, pre ++ [c], base, names, hbase, ?_, ?_, ?_, hq, hroot, Or.inr ?_⟩
        · rw [hcomps, hp, List.append_assoc]
        · rw [habs, Path.isAbsolute_parent? hparent]
        · rw [← hred, List.append_assoc]; rfl
        · rcases hfirst with ⟨rfl, rfl⟩ | ⟨c', rest, a', rfl, hfirst⟩
          · exact ⟨c, [], p, rfl, hparent, hlast, Or.inl rfl, hcanon, hpresent⟩
          · refine ⟨c', rest ++ [c], a', rfl, { hfirst with outer := Or.inr ?_ }⟩
            rcases hfirst.outer with rfl | hx
            · exact ⟨p, hparent⟩
            · exact hx
    · cases h

end Stowage.FileSystem
