import Stowage.Proofs.Files.Landing
import Stowage.Proofs.Path.Parents

/-!
# Where a path breaks off

A path that is not found leads somewhere as far as it can, and with the next name it
leads nowhere: there it *breaks off* (`BreaksOff`, `exists_breaksOff`).

* A walk that does not arrive does not arrive with more names either, and fails in the
  same way (`walk_append`).  So what is missing on the way to a path is missing from the
  path (`notFound_of_ancestor`), and the parent of a missing path is there or missing as
  well (`parent_of_notFound`).
* The missing name is free, or a link that leads nowhere stands there
  (`BreaksOff.free_or_link`).
* A call that does not follow links finds such a link only if nothing stops it on the
  way, and if the path ends in its name (`BreaksOff.isPresent_iff`).  Further down it
  finds nothing (`isPresent_of_parent`).
-/

namespace Stowage.FileSystem

open Result Stowage.Path

variable {fs fs' : FileSystem} {dots : DotNames} {p q a a' : Path} {base : Location} {n : String}
  {rest : List Component}

/-! ## Walks that do not arrive -/

/-- What becomes of a walk that is to go on, when its first part has not arrived. -/
def goOn : Except OsError Spot → Except OsError Spot
  | .ok (.vacant _ _) => .error .notFound
  | r => r

/-- **A walk that does not arrive** does not get further with more names. -/
theorem walk_append {b : Nat} {cur : Location} {xs ys : List String} (hys : ys ≠ [])
    (h : ∀ loc, fs.walk dots .followed b cur xs ≠ .ok (.present loc)) :
    fs.walk dots .followed b cur (xs ++ ys) = goOn (fs.walk dots .followed b cur xs) := by
  induction b using Nat.strongRecOn generalizing cur xs with
  | ind b ihb =>
    have hlink (cur : Location) (names rest : List String)
        (h : ∀ loc, fs.linkWalk dots .followed b cur (names ++ rest) ≠ .ok (.present loc)) :
        fs.linkWalk dots .followed b cur (names ++ (rest ++ ys)) =
          goOn (fs.linkWalk dots .followed b cur (names ++ rest)) := by
      cases b with
      | zero => rfl
      | succ b =>
        rw [← List.append_assoc]
        exact ihb b (Nat.lt_succ_self b) h
    rw [walk_eq] at h ⊢
    fun_induction walkOn fs dots .followed (fs.linkWalk dots .followed b) cur xs with
    | case1 cur => exact absurd rfl (h cur)
    | case2 cur rest mode hmode ih =>
      simp only [List.cons_append, walkOn, hmode, if_true]
      exact ih h
    | case4 cur rest mode hmode hne hpass ih | case5 cur rest mode hmode hne hpass _ ih =>
      simp only [List.cons_append, walkOn, hmode, hne, hpass, String.reduceEq, if_false, if_true]
      exact ih h
    | case8 cur name mode hmode hne hpass hdot hup hshort hnode
    | case9 cur name rest mode hmode hne hpass hdot hup _ hshort hnode hrest =>
      simp only [List.cons_append, walkOn, hmode, hne, hpass, hdot, hup, hshort, hnode,
        if_false, reduceCtorEq, and_false, List.append_eq_nil_iff, hys, goOn]
    | case11 cur name rest mode hmode hne hpass hdot hup _ hshort target hnode =>
      simp only [List.cons_append, walkOn, hmode, hne, hpass, hdot, hup, hshort, hnode, if_false,
        reduceCtorEq, and_false]
      exact hlink _ _ _ h
    | case12 cur name rest mode hmode hne hpass hdot hup _ hshort node hplain hnode ih =>
      simp only [List.cons_append, walkOn, hmode, hne, hpass, hdot, hup, hshort, hnode, if_false,
        reduceCtorEq, and_false]
      exact ih h
    -- a walk that follows every link neither keeps one nor is to make a file
    | case6 cur name rest mode _ _ _ _ _ hfilled => exact LastName.noConfusion hfilled.2
    | case10 cur name rest mode _ _ _ _ _ _ _ target _ hkept => exact LastName.noConfusion hkept.2
    | _ => simp_all only [List.cons_append, walkOn, if_false, if_true, and_self, reduceCtorEq,
        and_false, goOn]

theorem IsMissing.not_present {r : Except OsError Spot} (h : IsMissing r) (loc : Location) :
    r ≠ .ok (.present loc) := by
  rintro rfl
  exact not_isMissing_present loc h

/-- What is missing is missing when a walk goes on. -/
theorem IsMissing.append {b : Nat} {cur : Location} {xs : List String}
    (h : IsMissing (fs.walk dots .followed b cur xs)) (ys : List String) :
    IsMissing (fs.walk dots .followed b cur (xs ++ ys)) := by
  by_cases hys : ys = []
  · rwa [hys, List.append_nil]
  rw [walk_append hys h.not_present]
  rcases h with h | ⟨dir, name, h⟩ <;> rw [h] <;> exact Or.inl rfl

/-- **If a walk misses something**, its first part misses it, or else it arrives. -/
theorem IsMissing.of_append {b : Nat} {cur : Location} {xs ys : List String}
    (h : IsMissing (fs.walk dots .followed b cur (xs ++ ys))) :
    (∃ loc, Leads fs dots .followed b cur xs (.present loc)) ∨
      IsMissing (fs.walk dots .followed b cur xs) := by
  by_cases hys : ys = []
  · rw [hys, List.append_nil] at h
    exact Or.inr h
  by_cases harrives : ∃ loc, fs.walk dots .followed b cur xs = .ok (.present loc)
  · exact Or.inl (harrives.imp fun loc => leads_of_walk)
  right
  rw [walk_append hys (not_exists.mp harrives)] at h
  cases hr : fs.walk dots .followed b cur xs with
  | error e =>
    rw [hr] at h
    exact h
  | ok s =>
    cases s with
    | present loc => exact absurd ⟨loc, hr⟩ harrives
    | vacant dir name => exact Or.inr ⟨dir, name, rfl⟩

/-- What is missing is missing from a directory. -/
theorem IsMissing.isDirectory {last : LastName} {b : Nat} {cur : Location} {node : Node}
    {names : List String} (h : IsMissing (fs.walk dots last b cur names)) (hne : names ≠ [])
    (hnode : fs.node? cur = some node) : ∃ mode, fs.node? cur = some (.directory mode) := by
  by_cases hdir : ∃ mode, fs.node? cur = some (.directory mode)
  · exact hdir
  rw [walk_of_not_directory (directoryMode?_eq_none hdir) b hne, hnode] at h
  exact absurd h (not_isMissing_error (by decide))

/-- **A name that is missing** has been looked up. -/
theorem IsMissing.looksUp {last : LastName} {b : Nat} {cur : Location} {node : Node}
    (h : IsMissing (fs.walk dots .followed b cur [n])) (hn : IsName n)
    (hnode : fs.node? cur = some node) : fs.LooksUp last cur n [] := by
  obtain ⟨mode, hmode⟩ := h.isDirectory (List.cons_ne_nil n []) hnode
  rw [walk_eq, walkOn, directoryMode?_eq_some_iff.mpr hmode] at h
  simp only [hn.ne_empty, hn.ne_dot, hn.ne_up, if_false, reduceCtorEq, and_false] at h
  split at h
  · exact absurd h (not_isMissing_error (by decide))
  rename_i hpass
  split at h
  · exact absurd h (not_isMissing_error (by decide))
  rename_i hshort
  exact .of_guards (directoryMode?_eq_some_iff.mpr hmode) hn.ne_empty hpass hn.ne_dot hn.ne_up
    (by simp) hshort

/-! ## Paths that are not found -/

theorem startOf_of_isAbsolute (fs : FileSystem) (h : p.isAbsolute = true) :
    fs.startOf p = [] := by
  rw [startOf, h]
  rfl

/-- **An absolute path is not found** exactly when the walk along its names misses one. -/
theorem canonicalize_eq_notFound (hwf : fs.WellFormed) (habs : p.isAbsolute = true) :
    fs.canonicalize p = .error (.os .notFound) ↔ checkPath p = .ok () ∧
      IsMissing (fs.walk .understood .followed maxLinks [] p.moves) := by
  have hne := ne_empty_of_isAbsolute habs
  rw [← fs.startOf_of_isAbsolute habs]
  constructor
  · intro h
    obtain ⟨hcheck, zs, hzs, hmissing⟩ := of_canonicalize_notFound hne h
    refine ⟨hcheck, ?_⟩
    rcases hmissing.of_append with ⟨loc, hloc⟩ | hmoves
    · exfalso
      obtain ⟨node, hnode, -⟩ := hloc.holdsPlain hwf
        (holdsPlain_of_directory ⟨_, by rw [fs.startOf_of_isAbsolute habs]; rfl⟩)
      by_cases hnil : zs = []
      · rw [hnil, List.append_nil, walk_of_leads hloc] at hmissing
        exact not_isMissing_present loc hmissing
      · obtain ⟨b, hresume⟩ := hloc.resume
        rw [hresume _ zs hnil (by simp)] at hmissing
        exact not_isMissing_idle hzs hnode hmissing
    · exact hmoves
  · rintro ⟨hcheck, hmissing⟩
    obtain ⟨zs, -, hwalk⟩ := fs.walk_walkSteps p
    have hmissing := hmissing.append zs
    rw [← hwalk] at hmissing
    rw [canonicalize, hcheck, walkNames]
    rcases hmissing with h | ⟨dir, name, h⟩ <;> rw [h] <;> rfl

section Ancestors
variable (hwf : fs.WellFormed) (habs : p.isAbsolute = true)
include hwf habs

/-- **What is missing on the way to a path** is missing from the path. -/
theorem notFound_of_ancestor (hq : q ∈ p.ancestors) (hcheck : checkPath p = .ok ())
    (h : fs.canonicalize q = .error (.os .notFound)) :
    fs.canonicalize p = .error (.os .notFound) := by
  obtain ⟨⟨cs, hcs⟩, hqabs⟩ := components_ancestor hq
  obtain ⟨-, hmissing⟩ := (canonicalize_eq_notFound hwf (hqabs.trans habs)).mp h
  refine (canonicalize_eq_notFound hwf habs).mpr ⟨hcheck, ?_⟩
  rw [moves_of_components hcs]
  exact hmissing.append _

/-- **The parent of a path that is not found** is there, or it is not found either. -/
theorem parent_of_notFound (h : fs.canonicalize p = .error (.os .notFound))
    (hq : p.parent? = some q) :
    (∃ loc, fs.Canonical q loc) ∨ fs.canonicalize q = .error (.os .notFound) := by
  have hqabs : q.isAbsolute = true := (isAbsolute_parent? hq).trans habs
  have hne := ne_empty_of_isAbsolute hqabs
  obtain ⟨hcheck, hmissing⟩ := (canonicalize_eq_notFound hwf habs).mp h
  have hqcheck := checkPath_of_isPrefix hcheck (chars_parent?_isPrefix hq) hne
  obtain ⟨c, -, -, hmoves⟩ := moves_parent? hq hne
  rw [hmoves] at hmissing
  rcases hmissing.of_append with ⟨loc, hloc⟩ | hmissing'
  · left
    obtain ⟨node, hnode, -⟩ := hloc.holdsPlain hwf (holdsPlain_of_directory ⟨_, rfl⟩)
    obtain ⟨b, hresume⟩ := hloc.resume
    rw [hresume _ _ (List.cons_ne_nil _ _) (by simp)] at hmissing
    rw [← fs.startOf_of_isAbsolute hqabs] at hloc
    exact ⟨loc, .of_reaches_directory hqcheck hloc
      (hmissing.isDirectory (List.cons_ne_nil _ _) hnode)⟩
  · exact Or.inr ((canonicalize_eq_notFound hwf hqabs).mpr ⟨hqcheck, hmissing'⟩)

end Ancestors

/-! ## Paths that are there -/

/-- A link that is not followed does not matter where idle steps come after it. -/
theorem Canonical.of_idle {last : LastName} {loc : Location} {xs : List String} {m : String}
    (hsteps : p.walkSteps = xs ++ [m]) (hm : IsIdleStep m) (hcheck : checkPath p = .ok ())
    (h : Leads fs dots last maxLinks (fs.startOf p) p.walkSteps (.present loc)) :
    fs.Canonical p loc := by
  have hidle : ∀ x ∈ [m], IsIdleStep x := by simpa using hm
  rw [hsteps] at h
  obtain ⟨mid, b', hxs, hlast⟩ := h.of_append (List.cons_ne_nil m [])
  obtain rfl := hlast.of_idle hidle
  obtain ⟨b, hresume⟩ := hxs.understood.resume
  refine ⟨hcheck, leads_of_walk ?_⟩
  rw [hsteps, hresume _ _ (List.cons_ne_nil m []) (by simp)]
  exact walk_of_leads (leads_idle (hlast.start_isDirectory (List.cons_ne_nil m [])) hidle)

/-- **What is present but not found** is named by the last step of the path. -/
theorem isTrim_of_present {loc : Location} (h : fs.find false p = .ok loc)
    (hnot : fs.canonicalize p = .error (.os .notFound)) : p.IsTrim := by
  obtain ⟨hcheck, hleads⟩ := locate_eq_ok.mp (find_eq_ok.mp h)
  obtain ⟨u, hcheck, -⟩ := bind_eq_ok.mp hcheck
  rcases List.eq_nil_or_concat p.walkSteps with hnil | ⟨xs, m, hsteps⟩
  · rw [hnil] at hleads
    refine absurd ⟨hcheck, ?_⟩ (not_canonical_of_notFound hnot (fs.startOf p))
    rw [hnil]
    exact .arrive _ _
  · rw [List.concat_eq_append] at hsteps
    by_cases hm : IsIdleStep m
    · exact absurd (.of_idle hsteps hm hcheck hleads) (not_canonical_of_notFound hnot loc)
    · exact isTrim_of_walkSteps hsteps (fun he => hm (Or.inl he)) fun he => hm (Or.inr he)

/-- **Where something is present**, a call finds the parent. -/
theorem find_parent_of_present {loc : Location} (h : fs.find false p = .ok loc)
    (hq : p.parent? = some q) (hne : q ≠ .empty) : ∃ mid, fs.find true q = .ok mid := by
  obtain ⟨hcheck, hleads⟩ := locate_eq_ok.mp (find_eq_ok.mp h)
  obtain ⟨c, -, -, hmoves⟩ := moves_parent? hq hne
  obtain ⟨idle, m, zs, hsteps, -⟩ := steps_parent? hq (by simp [hmoves])
  rw [walkSteps, hsteps, List.append_assoc, List.append_assoc] at hleads
  obtain ⟨mid, b, hmid, hgo⟩ := hleads.of_append (by simp)
  refine ⟨mid, find_eq_ok.mpr (locate_eq_ok.mpr
    ⟨checkCallPath_of_isPrefix hcheck (chars_parent?_isPrefix hq) hne, ?_⟩)⟩
  rw [startOf_congr (isAbsolute_parent? hq), walkSteps, if_pos rfl]
  cases q.endsInSlash with
  | true => exact hmid.append_slash (hgo.start_isDirectory (by simp))
  | false => simpa using hmid

/-- A call that finds a path goes along its names. -/
theorem leads_steps_of_find {loc : Location} (h : fs.find true p = .ok loc) :
    Leads fs .lookedUp .followed maxLinks (fs.startOf p) p.steps (.present loc) := by
  have hleads := (locate_eq_ok.mp (find_eq_ok.mp h)).2
  obtain ⟨zs, hsteps, hzs⟩ := idle_walkSteps p
  rw [hsteps, if_pos rfl] at hleads
  by_cases hnil : zs = []
  · rwa [hnil, List.append_nil] at hleads
  · obtain ⟨mid, b, hmid, hgo⟩ := hleads.of_append hnil
    rwa [hgo.of_idle hzs]

/-- Below what is not found nothing is present. -/
theorem isPresent_of_parent (hq : p.parent? = some q) (hne : q ≠ .empty)
    (hnot : fs.canonicalize q = .error (.os .notFound)) : fs.isPresent p = false := by
  rw [isPresent]
  cases h : fs.find false p with
  | error e => rfl
  | ok loc =>
    obtain ⟨mid, hmid⟩ := find_parent_of_present h hq hne
    exact absurd (canonical_of_find hmid) (not_canonical_of_notFound hnot mid)

/-! ## Breaking off -/

/-- **Where a path breaks off**: its ancestor `a` leads to `base`, and `a'`, which goes on by
the name `n`, is not found.  The components `rest` come after it. -/
structure BreaksOff (fs : FileSystem) (p a a' : Path) (base : Location) (n : String)
    (rest : List Component) : Prop where
  ancestor : a' ∈ p.ancestors
  parent : a'.parent? = some a
  components : p.components = a.components ++ .name n :: rest
  canonical : fs.Canonical a base
  notFound : fs.canonicalize a' = .error (.os .notFound)

/-- **A path that is not found** breaks off somewhere. -/
theorem exists_breaksOff (hwf : fs.WellFormed) (habs : p.isAbsolute = true)
    (h : fs.canonicalize p = .error (.os .notFound)) :
    ∃ a a' base n rest, fs.BreaksOff p a a' base n rest := by
  induction p using parent_induction with
  | step p ih =>
    cases hq : p.parent? with
    | none =>
      obtain ⟨-, hmissing⟩ := (canonicalize_eq_notFound hwf habs).mp h
      rw [moves_of_parent?_eq_none hq, walk_of_leads (.arrive _ _)] at hmissing
      exact absurd hmissing (not_isMissing_present _)
    | some q =>
      have hqabs := (isAbsolute_parent? hq).trans habs
      have hne := ne_empty_of_isAbsolute hqabs
      obtain ⟨c, hcomps, hstep, hmoves⟩ := moves_parent? hq hne
      rcases parent_of_notFound hwf habs h hq with ⟨base, hbase⟩ | hnot
      · have hreaches := hbase.reaches
        rw [Reaches, startOf_congr (isAbsolute_parent? hq)] at hreaches
        obtain ⟨hup, -⟩ := not_holdsPlain_of_notFound hwf (checkPath_eq_ok.mp
          ((canonicalize_eq_notFound hwf habs).mp h).1).2 hmoves hreaches (hbase.holdsPlain hwf) h
        cases c with
        | name n => exact ⟨q, p, base, n, [], self_mem_ancestors p, hq, hcomps, hbase, h⟩
        | up => exact absurd rfl hup
        | root | here => cases hstep
      · obtain ⟨a, a', base, n, rest, hb⟩ := ih q hq hqabs hnot
        refine ⟨a, a', base, n, rest ++ [c], { hb with
          ancestor := mem_ancestors.mpr (Or.inr ⟨q, hq, hb.ancestor⟩), components := ?_ }⟩
        rw [hcomps, hb.components, List.append_assoc]
        rfl

/-- **A link is seen** at a name of a directory `base`, which is the last one of the path `a'`,
when a call accepts this path, finds its parent, and has nothing to look for after the name. -/
structure SeesLink (fs : FileSystem) (a a' : Path) (base : Location) (n : String) : Prop where
  link : ∃ target, fs.node? (n :: base) = some (.link target)
  trim : a'.IsTrim
  short : a'.text.utf8ByteSize ≤ maxPathBytes
  found : fs.find true a = .ok base

namespace BreaksOff
variable (h : fs.BreaksOff p a a' base n rest)
include h

theorem ne_empty : a ≠ .empty := h.canonical.ne_empty

theorem missing_ne_empty : a' ≠ .empty := by
  rintro rfl
  cases h.parent

theorem isName : IsName n :=
  isName_of_mem_components (p := p) (by rw [h.components]; simp)

theorem isStep : ∀ c ∈ rest, c.isStep = true := fun _ hc =>
  isStep_of_components h.components h.ne_empty _ (List.mem_cons_of_mem _ hc)

theorem isAbsolute : a'.isAbsolute = p.isAbsolute ∧ a.isAbsolute = p.isAbsolute := by
  obtain ⟨-, habs⟩ := components_ancestor h.ancestor
  exact ⟨habs, (isAbsolute_parent? h.parent).trans habs⟩

theorem missing_components : a'.components = a.components ++ [.name n] := by
  obtain ⟨⟨cs, hcs⟩, -⟩ := components_ancestor h.ancestor
  obtain ⟨c, -, hc, -⟩ := components_parent? h.parent
  rw [h.components, hc, List.append_assoc] at hcs
  obtain ⟨rfl, -⟩ := List.cons.inj (List.append_cancel_left hcs)
  exact hc

theorem missing_moves : a'.moves = a.moves ++ [n] :=
  @moves_of_names _ _ [n] h.missing_components

/-- From where the path has led, the next name is missing. -/
theorem isMissing (hwf : fs.WellFormed) (habs : p.isAbsolute = true) :
    ∃ b, IsMissing (fs.walk .understood .followed b base [n]) := by
  obtain ⟨habs', haabs⟩ := h.isAbsolute
  obtain ⟨-, hmissing⟩ :=
    (canonicalize_eq_notFound hwf (habs'.trans habs)).mp h.notFound
  have hreaches := h.canonical.reaches
  rw [Reaches, fs.startOf_of_isAbsolute (haabs.trans habs)] at hreaches
  obtain ⟨b, hresume⟩ := hreaches.resume
  rw [h.missing_moves, hresume _ _ (List.cons_ne_nil n []) (by simp)] at hmissing
  exact ⟨b, hmissing⟩

/-- **The missing name** could have been found, where the path has led. -/
theorem looksUp (hwf : fs.WellFormed) (habs : p.isAbsolute = true) (last : LastName) :
    fs.LooksUp last base n [] := by
  obtain ⟨b, hmissing⟩ := h.isMissing hwf habs
  obtain ⟨node, hnode, -⟩ := h.canonical.holdsPlain hwf
  exact hmissing.looksUp h.isName hnode

/-- **The missing name** is free, or a link stands there. -/
theorem free_or_link (hwf : fs.WellFormed) :
    fs.node? (n :: base) = none ∨ ∃ target, fs.node? (n :: base) = some (.link target) := by
  have hreaches := h.canonical.reaches
  rw [Reaches, startOf_congr (h.isAbsolute.2.trans h.isAbsolute.1.symm)] at hreaches
  obtain ⟨-, hplain⟩ := not_holdsPlain_of_notFound hwf h.missing_ne_empty h.missing_moves hreaches
    (h.canonical.holdsPlain hwf) h.notFound
  cases hnode : fs.node? (n :: base) with
  | none => exact Or.inl rfl
  | some node =>
    cases node with
    | link target => exact Or.inr ⟨target, rfl⟩
    | _ => exact absurd ⟨_, hnode, by simp⟩ hplain

theorem startOf_eq : fs.startOf a' = fs.startOf a :=
  startOf_congr (h.isAbsolute.1.trans h.isAbsolute.2.symm)

/-- What is present where a path breaks off is a link that is seen. -/
theorem seesLink_of_present (hwf : fs.WellFormed) {loc : Location}
    (hloc : fs.find false a' = .ok loc) : fs.SeesLink a a' base n := by
  have htrim := isTrim_of_present hloc h.notFound
  obtain ⟨mid, hmid⟩ := find_parent_of_present hloc h.parent h.ne_empty
  obtain rfl : mid = base :=
    Spot.present.inj ((canonical_of_find hmid).leads.unique h.canonical.leads)
  obtain ⟨hcheck, hleads⟩ := locate_eq_ok.mp (find_eq_ok.mp hloc)
  refine ⟨(h.free_or_link hwf).resolve_left fun hfree => ?_, htrim,
    (checkCallPath_eq_ok.mp hcheck).2.2, hmid⟩
  -- the walk along the path goes on from `base` by the name, which is there
  rw [htrim.walkSteps] at hleads
  have hreaches := reaches_of_leads htrim (by simp) hleads
  rw [Reaches, h.missing_moves, h.startOf_eq] at hreaches
  obtain ⟨mid', b, hmid', hname⟩ := hreaches.of_append (List.cons_ne_nil n [])
  obtain rfl := Spot.present.inj (hmid'.unique h.canonical.reaches)
  rcases hname.of_single h.isName with hs | ⟨-, node, hnode⟩
  · cases hs
  · rw [hfree] at hnode
    cases hnode

/-- A link that is seen is present. -/
theorem find_of_seesLink (hwf : fs.WellFormed) (habs : p.isAbsolute = true)
    (hsees : fs.SeesLink a a' base n) : fs.find false a' = .ok (n :: base) := by
  obtain ⟨⟨target, hlink⟩, htrim, hshort, hfound⟩ := hsees
  have hlook := h.looksUp hwf habs .kept
  obtain ⟨idle, hsteps, hidle⟩ := htrim.steps_parent? h.parent h.missing_moves
  obtain ⟨hzero, hne⟩ :=
    checkPath_eq_ok.mp (of_canonicalize_notFound h.missing_ne_empty h.notFound).1
  -- a call takes the steps to `base`, then idle ones, and then the name
  obtain ⟨b, hresume⟩ := (leads_steps_of_find hfound).resume
  have hname : Leads fs .lookedUp .kept b base (idle ++ [n]) (.present (n :: base)) :=
    (Leads.keep hlook hlink rfl).after_idle (hlook.pass.imp fun _ hm => ⟨hm.1, fun _ => hm.2⟩)
      fun m hm => Or.inr (hidle m hm)
  refine find_eq_ok.mpr (locate_eq_ok.mpr
    ⟨checkCallPath_eq_ok.mpr ⟨hzero, hne, hshort⟩, leads_of_walk ?_⟩)
  rw [htrim.walkSteps, hsteps, h.startOf_eq, List.append_assoc, if_neg Bool.false_ne_true,
    hresume _ _ (by simp) (by simp)]
  exact walk_of_leads hname

/-- **Where a path breaks off nothing is present** but a link that is seen. -/
theorem isPresent_iff (hwf : fs.WellFormed) (habs : p.isAbsolute = true) :
    fs.isPresent a' = true ↔ fs.SeesLink a a' base n := by
  constructor
  · intro hpresent
    rw [isPresent] at hpresent
    cases hfind : fs.find false a' with
    | error e => rw [hfind] at hpresent; cases hpresent
    | ok loc => exact h.seesLink_of_present hwf hfind
  · intro hsees
    rw [isPresent, h.find_of_seesLink hwf habs hsees]
    rfl

end BreaksOff

/-! ## Looking for what is there -/

/-- **The search for an ancestor that is there** passes over what comes after the missing name. -/
theorem landing_missing (hwf : fs.WellFormed) (habs : p.isAbsolute = true)
    (hcheck : checkPath p = .ok ()) (h : fs.BreaksOff p a a' base n rest) (root : Path)
    (missing : List Component) : fs.landing root p.ancestors missing =
      fs.landing root a'.ancestors (rest ++ missing) := by
  induction p using parent_induction generalizing rest missing with
  | step p ih =>
    rcases mem_ancestors.mp h.ancestor with rfl | ⟨q, hq, ha'⟩
    · have hcomps := h.components.symm.trans h.missing_components
      obtain ⟨-, rfl⟩ := List.cons.inj (List.append_cancel_left hcomps)
      rfl
    have hqabs := (isAbsolute_parent? hq).trans habs
    have hne := ne_empty_of_isAbsolute hqabs
    have hqcheck := checkPath_of_isPrefix hcheck (chars_parent?_isPrefix hq) hne
    have hnot := notFound_of_ancestor hwf hqabs ha' hqcheck h.notFound
    obtain ⟨c, hlast, hcomps, -⟩ := components_parent? hq
    obtain ⟨⟨cs, hcs⟩, -⟩ := components_ancestor ha'
    obtain rfl : rest = cs ++ [c] := by
      have := h.components
      rw [hcomps, hcs, h.missing_components, List.append_assoc, List.append_assoc] at this
      exact (List.cons.inj (List.append_cancel_left this)).2.symm
    have hb : fs.BreaksOff q a a' base n cs :=
      { h with
        ancestor := ha'
        components := by rw [hcs, h.missing_components, List.append_assoc]; rfl }
    rw [ancestors_of_parent? hq, landing,
      notFound_of_ancestor hwf habs h.ancestor hcheck h.notFound]
    simp only [isPresent_of_parent hq hne hnot, Bool.false_eq_true, if_false, hlast]
    rw [ih q hq hqabs hqcheck hb, List.append_assoc]
    rfl

end Stowage.FileSystem
