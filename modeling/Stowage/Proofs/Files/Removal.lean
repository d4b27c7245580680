import Stowage.Proofs.Files.Calls

/-!
# Removing a directory with all that is in it

A file system can be compared with an earlier one in which some location was still free:
everything outside that location may be as it was (`SameOutside`).  Then a path that named
the free location still names it, whatever is there now (`locateName_of_free`).

Removing a directory takes away what is in it, step by step, and then the directory.  No
step leaves the directory (`clearDir_ensures`), and a removal that succeeds leaves nothing
at or below its location (`removeTree_ensures`).
-/

namespace Stowage.FileSystem

open Result Call

variable {fs fs' fs'' : FileSystem} {root loc : Location} {p : Path}

/-! ## What lies outside a directory -/

/-- Everything that is not at a location or below it is as it was. -/
structure SameOutside (root : Location) (fs fs' : FileSystem) : Prop where
  entries : ∀ loc, Location.within root loc = false → fs'.entry? loc = fs.entry? loc
  workingDir : fs'.workingDir = fs.workingDir

namespace SameOutside

theorem refl (root : Location) (fs : FileSystem) : SameOutside root fs fs := ⟨fun _ _ => rfl, rfl⟩

theorem trans (h : SameOutside root fs fs') (h' : SameOutside root fs' fs'') :
    SameOutside root fs fs'' :=
  ⟨fun loc hloc => (h'.entries loc hloc).trans (h.entries loc hloc),
    h'.workingDir.trans h.workingDir⟩

theorem of_changedOnly {P : Location → Prop} (h : ChangedOnly P fs fs')
    (hp : ∀ loc, P loc → Location.within root loc = true) : SameOutside root fs fs' := by
  refine ⟨fun loc hloc => h.entry? fun hloc' => ?_, h.workingDir⟩
  rw [hp loc hloc'] at hloc
  cases hloc

/-- Below a location that was free, nothing was held: a walk still sees all that it saw. -/
theorem shows (hwf : fs.WellFormed) (hfree : fs.node? root = none)
    (h : SameOutside root fs fs') : Shows fs fs' := by
  refine shows_of_entries fun loc e he => ?_
  rw [h.entries loc, he]
  cases hw : Location.within root loc with
  | false => rfl
  | true =>
    obtain ⟨node, hnode, -⟩ := Option.map_eq_some_iff.mp he
    have hnone (mode : Mode) : fs.node? root ≠ some (.directory mode) := by simp [hfree]
    obtain rfl := hwf.eq_of_within hnode hw hnone
    rw [hfree] at hnode
    cases hnode

end SameOutside

/-- Nothing is held at or below a free location. -/
theorem WellFormed.node?_of_within (hwf : fs.WellFormed) (hfree : fs.node? root = none)
    (h : Location.within root loc = true) : fs.node? loc = none := by
  cases hn : fs.node? loc with
  | none => rfl
  | some node =>
    have hnone (mode : Mode) : fs.node? root ≠ some (.directory mode) := by simp [hfree]
    obtain rfl := hwf.eq_of_within hn h hnone
    rw [hfree] at hn
    cases hn

/-- **A path that named a free location** names it still. -/
theorem locateName_of_free {dir : Location} {name : String}
    (h : fs.locateName p = .ok (.vacant dir name)) (hin : Shows fs fs')
    (hdir : fs'.workingDir = fs.workingDir) :
    fs'.locateName p = .ok (if (fs'.node? (name :: dir)).isSome then .present (name :: dir)
      else .vacant dir name) := by
  rw [locateName_eq_ok] at h ⊢
  rw [startOf, hdir, ← startOf]
  exact ⟨h.1, h.2.spot_kept hin⟩

/-- What a trim path names is found under it. -/
theorem find_of_locateName {s : Spot} (hp : p.IsTrim) (h : fs.locateName p = .ok s) :
    fs.find false p = match s with
      | .present loc => .ok loc
      | .vacant _ _ => .error (.os .notFound) := by
  have hlocate : fs.locate .kept p = .ok s := by
    rw [locate_eq_ok, hp.walkSteps]
    exact locateName_eq_ok.mp h
  unfold find
  simp only [Bool.false_eq_true, if_false]
  rw [hlocate]
  cases s <;> rfl

/-- What is found under a trim path is what it names. -/
theorem locateName_of_find (hp : p.IsTrim) (h : fs.find false p = .ok loc) :
    fs.locateName p = .ok (.present loc) := by
  have hlocate : fs.locate .kept p = .ok (.present loc) := find_eq_ok.mp h
  rw [locate_eq_ok, hp.walkSteps] at hlocate
  exact locateName_eq_ok.mpr hlocate

/-! ## Removing what is empty -/

/-- **Removing an empty directory** fails, or removes it. -/
theorem removeEmptyDir_apply (p : Path) (fs : FileSystem) :
    (∃ e, (removeEmptyDir p).apply fs = (.error e, fs)) ∨
      ∃ loc, fs.locateName p = .ok (.present loc) ∧
        (removeEmptyDir p).apply fs = (.ok (), fs.cut loc) := by
  rw [removeEmptyDir, apply_bind, apply_askResult]
  cases hp : fs.locateName p with
  | error e => exact Or.inl ⟨e, rfl⟩
  | ok s =>
    cases s with
    | vacant dir name => exact Or.inl ⟨_, rfl⟩
    | present loc =>
      simp only
      split
      · exact Or.inl ⟨_, rfl⟩
      split
      · exact Or.inl ⟨_, rfl⟩
      simp only [apply_bind, demandRemoval, apply_demand]
      cases hpass : fs.allows loc.tail .pass with
      | false => exact Or.inl ⟨_, rfl⟩
      | true =>
        simp only [if_true]
        cases hwrite : fs.allows loc.tail .write with
        | false => exact Or.inl ⟨_, rfl⟩
        | true =>
          simp only [if_true, apply_ask]
          cases hdir : fs.isDirectoryAt loc with
          | false => exact Or.inl ⟨_, rfl⟩
          | true =>
            simp only [Bool.not_true, Bool.false_eq_true, if_false, apply_bind, apply_ask]
            split
            · exact Or.inl ⟨_, rfl⟩
            · exact Or.inr ⟨loc, rfl, rfl⟩

/-! ## Making a directory empty -/

/-- **What is removed to make a directory empty** is inside it. -/
theorem inside_of_mem_clearingSteps (fs : FileSystem) {depth : Nat} {dir : Location}
    (h : .remove loc ∈ fs.clearingSteps depth dir) : Location.Inside dir loc := by
  induction depth generalizing dir with
  | zero => cases h
  | succ depth ih =>
    rw [clearingSteps] at h
    rcases List.mem_cons.mp h with hlist | hin
    · cases hlist
    obtain ⟨child, hchild, hstep⟩ := List.mem_flatMap.mp hin
    obtain ⟨hne, rfl⟩ : child ≠ [] ∧ child.tail = dir := by
      simpa using (List.mem_filter.mp hchild).2
    obtain ⟨name, dir, rfl⟩ := List.exists_cons_of_ne_nil hne
    have hinside := Location.inside_cons name (Location.within_refl dir)
    rcases List.mem_append.mp hstep with hbelow | hself
    · split at hbelow
      · exact hinside.within_trans (ih hbelow).1
      · cases hbelow
    · cases List.mem_singleton.mp hself
      exact hinside

/-- **Making a directory empty** changes nothing outside it, and adds nothing. -/
theorem clearDir_ensures (dir : Location) (fs : FileSystem) :
    (clearDir dir).Ensures fs fun _ fs' =>
      ChangedOnly (Location.Inside dir) fs fs' ∧ NodesIn fs' fs := by
  refine .ask ?_
  have hinside : ∀ loc, .remove loc ∈ fs.clearingSteps (fs.nodes.length + 1) dir →
      Location.Inside dir loc := fun loc => fs.inside_of_mem_clearingSteps
  generalize fs.clearingSteps (fs.nodes.length + 1) dir = steps at hinside
  suffices h : Call.Keeps (steps.forM RemovalStep.take) fun fs' =>
      ChangedOnly (Location.Inside dir) fs fs' ∧ NodesIn fs' fs from h fs ⟨.refl fs, .refl fs⟩
  induction steps with
  | nil => exact .pure _
  | cons step steps ih =>
    show Call.Keeps (step.take >>= fun _ => steps.forM RemovalStep.take) _
    refine .bind ?_ fun _ => ih fun loc hloc => hinside loc (List.mem_cons_of_mem _ hloc)
    cases step with
    | list dir' => exact keeps_demand dir' .read
    | remove loc =>
      have hloc := hinside loc List.mem_cons_self
      refine .bind (.bind (keeps_demand _ _) fun _ => keeps_demand _ _) fun _ => ?_
      rintro fs' ⟨hchanged, hin⟩
      refine ⟨hchanged.trans (changedOnly_cut fun l hl => ?_), (nodesIn_cut fs' loc).trans hin⟩
      obtain ⟨e, he, rfl⟩ := List.mem_map.mp hl
      exact hloc.within_trans (by simpa using (List.mem_filter.mp he).2)

/-! ## Removing a tree -/

/-- What a cut takes away lies at or below its location. -/
theorem sameOutside_cut (fs : FileSystem) (loc : Location) : SameOutside loc fs (fs.cut loc) :=
  .of_changedOnly (changedOnly_cut (P := fun l => Location.within loc l = true) fun l hl => by
    obtain ⟨e, he, rfl⟩ := List.mem_map.mp hl
    simpa using (List.mem_filter.mp he).2) fun _ h => h

/-- After a cut, nothing is at its location or below it. -/
theorem node?_cut_below (fs : FileSystem) {dir : Location} {name : String}
    (h : Location.within (name :: dir) loc = true) : (fs.cut (name :: dir)).node? loc = none := by
  cases loc with
  | nil => cases (List.suffix_nil.mp (Location.within_iff.mp h))
  | cons other loc => exact node?_cut_of_within fs h

/-- **A removal that succeeds** leaves nothing at its location or below it, and everything
else as it was. -/
theorem removeTree_ensures {dir : Location} {name : String} (hp : p.IsTrim)
    (hloc : fs.locateName p = .ok (.present (name :: dir))) :
    (removeTree p).Ensures fs fun r fs' => r = .ok () → SameOutside (name :: dir) fs fs' ∧
      ∀ loc, Location.within (name :: dir) loc = true → fs'.node? loc = none := by
  have hfind := find_of_locateName hp hloc
  refine .askResult (fun loc hfound => .ask ?_) fun e _ h => by cases h
  obtain rfl : name :: dir = loc := by
    rw [hfind] at hfound
    exact Except.ok.inj hfound
  split
  · -- a link is removed like a file
    unfold Ensures
    rcases removeFile_apply p fs with ⟨e, h⟩ | ⟨loc, hloc', -, h⟩
    · rw [h]
      exact fun h => by cases h
    · rw [h]
      rw [hloc] at hloc'
      obtain rfl := Spot.present.inj (Except.ok.inj hloc')
      exact fun _ => ⟨sameOutside_cut fs _, fun _ h => node?_cut_below fs h⟩
  · refine (clearDir_ensures (name :: dir) fs).bind ?_ fun e _ _ h => by cases h
    rintro - fs₁ ⟨hchanged, hin⟩
    unfold Ensures
    rcases removeEmptyDir_apply p fs₁ with ⟨e, h⟩ | ⟨loc, hloc', h⟩
    · rw [h]
      exact fun h => by cases h
    · rw [h]
      -- the path leads where it has led before anything was removed
      obtain rfl : loc = name :: dir := by
        obtain ⟨-, hleads⟩ := locateName_eq_ok.mp hloc'
        obtain ⟨-, hleads'⟩ := locateName_eq_ok.mp hloc
        rw [startOf, hchanged.workingDir, ← startOf] at hleads
        exact Spot.present.inj ((hleads.mono hin).unique hleads')
      exact fun _ => ⟨(SameOutside.of_changedOnly hchanged fun _ h => h.1).trans
        (sameOutside_cut fs₁ _), fun _ h => node?_cut_below fs₁ h⟩
  · exact ensures_throw fun h => by cases h

/-- Where nothing is, there is nothing to remove. -/
theorem removeTree_of_free {dir : Location} {name : String} (hp : p.IsTrim)
    (hloc : fs.locateName p = .ok (.vacant dir name)) :
    (removeTree p).apply fs = (.error (.os .notFound), fs) := by
  rw [removeTree, apply_bind, apply_askResult, find_of_locateName hp hloc]

end Stowage.FileSystem
