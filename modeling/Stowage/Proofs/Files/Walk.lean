import Stowage.Proofs.Files.Nodes

/-!
# Successful walks

`FileSystem.walk` looks up one name after the other and reports an error as soon as a
lookup fails.  What later modules need are facts about walks that succeed, so this
module describes those by an inductive relation, `Leads`, with one rule for each way a
step can succeed, and shows that it is the graph of `walk` (`walk_eq_ok_iff`).

On this relation the following are short inductions:

* a walk along `xs ++ ys` is a walk along `xs` and then one along `ys`
  (`Leads.append`, `Leads.of_append`);
* a walk that ends at a node ends there in every file system that has more nodes
  (`Leads.mono`);
* `.` can be left out of a walk, and put back in before a name (`Leads.filter`,
  `Leads.of_filter`);
* of the three ways to treat a link in last place, the one that keeps it decides
  whether the other two find a free name (`Leads.kept_of_filled`).
-/

namespace Stowage.FileSystem

variable {fs fs' : FileSystem} {dots : DotNames} {last : LastName}

/-! ## The relation -/

/-- A dot name can be taken in a directory. -/
def AllowsDots (fs : FileSystem) (dots : DotNames) (dir : Location) : Prop :=
  ∃ mode, fs.node? dir = some (.directory mode) ∧ (dots = .lookedUp → mode.allows .pass = true)

/-- A name can be looked up in a directory. -/
structure LooksUp (fs : FileSystem) (last : LastName) (dir : Location) (name : String)
    (rest : List String) : Prop where
  proper : name ≠ "" ∧ name ≠ "." ∧ name ≠ ".."
  pass : ∃ mode, fs.node? dir = some (.directory mode) ∧ mode.allows .pass = true
  no_slash : ¬(rest = [""] ∧ last = .filled)
  short : name.utf8ByteSize ≤ maxNameBytes

/-- Where the names of a link's target are walked from. -/
def linkStart (dir : Location) (target : String) : Location :=
  if Path.isAbsolute ⟨target⟩ then [] else dir

/-- **A successful walk**: from a location, some names lead to a spot. -/
inductive Leads (fs : FileSystem) (dots : DotNames) (last : LastName) :
    Nat → Location → List String → Spot → Prop
  | arrive (b : Nat) (cur : Location) : Leads fs dots last b cur [] (.present cur)
  | skip {b : Nat} {cur : Location} {rest : List String} {s : Spot} :
      (∃ mode, fs.node? cur = some (.directory mode)) →
      Leads fs dots last b cur rest s → Leads fs dots last b cur ("" :: rest) s
  | here {b : Nat} {cur : Location} {rest : List String} {s : Spot} :
      fs.AllowsDots dots cur →
      Leads fs dots last b cur rest s → Leads fs dots last b cur ("." :: rest) s
  | up {b : Nat} {cur : Location} {rest : List String} {s : Spot} :
      fs.AllowsDots dots cur →
      Leads fs dots last b cur.tail rest s → Leads fs dots last b cur (".." :: rest) s
  | free {b : Nat} {cur : Location} {name : String} :
      fs.LooksUp last cur name [] → fs.node? (name :: cur) = none →
      Leads fs dots last b cur [name] (.vacant cur name)
  | keep {b : Nat} {cur : Location} {name target : String} :
      fs.LooksUp last cur name [] → fs.node? (name :: cur) = some (.link target) →
      last = .kept → Leads fs dots last b cur [name] (.present (name :: cur))
  | follow {b : Nat} {cur : Location} {name target : String} {rest : List String} {s : Spot} :
      fs.LooksUp last cur name rest → fs.node? (name :: cur) = some (.link target) →
      ¬(rest = [] ∧ last = .kept) →
      Leads fs dots last b (linkStart cur target) (Path.walkSteps ⟨target⟩ ++ rest) s →
      Leads fs dots last (b + 1) cur (name :: rest) s
  | enter {b : Nat} {cur : Location} {name : String} {rest : List String} {s : Spot}
      {node : Node} :
      fs.LooksUp last cur name rest → fs.node? (name :: cur) = some node →
      (∀ target, node ≠ .link target) →
      Leads fs dots last b (name :: cur) rest s → Leads fs dots last b cur (name :: rest) s

theorem LooksUp.of_guards {cur : Location} {name : String} {rest : List String} {mode : Mode}
    (hmode : fs.directoryMode? cur = some mode) (hempty : name ≠ "")
    (hpass : ¬((!mode.allows .pass) = true ∧ (dots = .lookedUp ∨ (!Path.isDotName name) = true)))
    (hdot : name ≠ ".") (hup : name ≠ "..") (hslash : ¬(rest = [""] ∧ last = .filled))
    (hshort : ¬maxNameBytes < name.utf8ByteSize) : fs.LooksUp last cur name rest where
  proper := ⟨hempty, hdot, hup⟩
  pass := by
    refine ⟨mode, directoryMode?_eq_some_iff.mp hmode, ?_⟩
    simpa [Path.isDotName, hdot, hup] using hpass
  no_slash := hslash
  short := Nat.le_of_not_lt hshort

/-- How a walk goes on at a link, with some budget. -/
def linkWalk (fs : FileSystem) (dots : DotNames) (last : LastName) :
    Nat → Location → List String → Except OsError Spot
  | 0 => fun _ _ => .error .tooManyLinks
  | b + 1 => fs.walk dots last b

theorem walk_eq (b : Nat) :
    fs.walk dots last b = fs.walkOn dots last (fs.linkWalk dots last b) := by
  cases b <;> rfl

theorem linkWalk_succ (b : Nat) : fs.linkWalk dots last (b + 1) = fs.walk dots last b := rfl

theorem leads_of_walkOn {b : Nat} {cur : Location} {names : List String} {s : Spot}
    (hlink : ∀ cur names s, fs.linkWalk dots last b cur names = .ok s →
      ∃ b', b = b' + 1 ∧ Leads fs dots last b' cur names s)
    (h : fs.walkOn dots last (fs.linkWalk dots last b) cur names = .ok s) :
    Leads fs dots last b cur names s := by
  fun_induction walkOn fs dots last (fs.linkWalk dots last b) cur names with
  | case1 cur => cases h; exact .arrive b cur
  | case2 cur rest mode hmode ih =>
    exact .skip ⟨mode, directoryMode?_eq_some_iff.mp hmode⟩ (ih h)
  | case4 cur rest mode hmode _ hpass ih =>
    refine .here ⟨mode, directoryMode?_eq_some_iff.mp hmode, fun hd => ?_⟩ (ih h)
    simpa [hd] using hpass
  | case5 cur rest mode hmode _ hpass _ ih =>
    refine .up ⟨mode, directoryMode?_eq_some_iff.mp hmode, fun hd => ?_⟩ (ih h)
    simpa [hd] using hpass
  | case8 cur name mode hmode hne hpass hdot hup hshort hnode hslash =>
    cases h
    exact .free (.of_guards hmode hne hpass hdot hup hslash hshort) hnode
  | case10 cur name rest mode hmode hne hpass hdot hup hslash hshort target hnode hkept =>
    cases h
    obtain ⟨rfl, rfl⟩ := hkept
    exact .keep (.of_guards hmode hne hpass hdot hup hslash hshort) hnode rfl
  | case11 cur name rest mode hmode hne hpass hdot hup hslash hshort target hnode hkept =>
    obtain ⟨b', rfl, hrest⟩ := hlink _ _ _ h
    exact .follow (.of_guards hmode hne hpass hdot hup hslash hshort) hnode hkept hrest
  | case12 cur name rest mode hmode hne hpass hdot hup hslash hshort node hlink' hnode ih =>
    exact .enter (.of_guards hmode hne hpass hdot hup hslash hshort) hnode hlink' (ih h)
  | _ => cases h

theorem leads_of_walk {b : Nat} {cur : Location} {names : List String} {s : Spot}
    (h : fs.walk dots last b cur names = .ok s) : Leads fs dots last b cur names s := by
  induction b generalizing cur names s with
  | zero =>
    refine leads_of_walkOn (fun cur names s hs => ?_) h
    cases hs
  | succ b ih => exact leads_of_walkOn (fun cur names s hs => ⟨b, rfl, ih hs⟩) h

theorem walk_of_leads {b : Nat} {cur : Location} {names : List String} {s : Spot}
    (h : Leads fs dots last b cur names s) : fs.walk dots last b cur names = .ok s := by
  induction h with
  | arrive => rw [walk_eq, walkOn]
  | skip hdir _ ih =>
    obtain ⟨mode, hmode⟩ := hdir
    rw [walk_eq] at ih ⊢
    rw [walkOn, directoryMode?_eq_some_iff.mpr hmode]
    simpa using ih
  | here hdots _ ih | up hdots _ ih =>
    obtain ⟨mode, hmode, hpass⟩ := hdots
    rw [walk_eq] at ih ⊢
    rw [walkOn, directoryMode?_eq_some_iff.mpr hmode]
    cases dots <;> simpa [Path.isDotName, hpass] using ih
  | free hlook hnode =>
    obtain ⟨⟨hne, hdot, hup⟩, ⟨mode, hmode, hpass⟩, hslash, hshort⟩ := hlook
    rw [walk_eq, walkOn, directoryMode?_eq_some_iff.mpr hmode]
    simp [hne, hpass, hdot, hup, Nat.not_lt.mpr hshort, hnode]
  | keep hlook hnode hkept =>
    obtain ⟨⟨hne, hdot, hup⟩, ⟨mode, hmode, hpass⟩, hslash, hshort⟩ := hlook
    rw [walk_eq, walkOn, directoryMode?_eq_some_iff.mpr hmode]
    simp [hne, hpass, hdot, hup, Nat.not_lt.mpr hshort, hnode, hkept]
  | follow hlook hnode hkept _ ih =>
    obtain ⟨⟨hne, hdot, hup⟩, ⟨mode, hmode, hpass⟩, hslash, hshort⟩ := hlook
    rw [walk_eq, walkOn, directoryMode?_eq_some_iff.mpr hmode]
    simpa [hne, hpass, hdot, hup, hslash, Nat.not_lt.mpr hshort, hnode, hkept, linkStart,
      linkWalk_succ] using ih
  | enter hlook hnode hlink _ ih =>
    obtain ⟨⟨hne, hdot, hup⟩, ⟨mode, hmode, hpass⟩, hslash, hshort⟩ := hlook
    rw [walk_eq] at ih ⊢
    rw [walkOn, directoryMode?_eq_some_iff.mpr hmode]
    rename_i node _
    cases node with
    | link target => exact absurd rfl (hlink target)
    | _ => simpa [hne, hpass, hdot, hup, hslash, Nat.not_lt.mpr hshort, hnode] using ih

/-- **`Leads` is the graph of `walk`.** -/
theorem walk_eq_ok_iff {b : Nat} {cur : Location} {names : List String} {s : Spot} :
    fs.walk dots last b cur names = .ok s ↔ Leads fs dots last b cur names s :=
  ⟨leads_of_walk, walk_of_leads⟩

/-- A walk leads to one spot only. -/
theorem Leads.unique {b : Nat} {cur : Location} {names : List String} {s s' : Spot}
    (h : Leads fs dots last b cur names s) (h' : Leads fs dots last b cur names s') : s = s' :=
  Except.ok.inj ((walk_of_leads h).symm.trans (walk_of_leads h'))

theorem LooksUp.isDirectory {cur : Location} {name : String} {rest : List String}
    (h : fs.LooksUp last cur name rest) : ∃ mode, fs.node? cur = some (.directory mode) :=
  let ⟨mode, hmode, _⟩ := h.pass
  ⟨mode, hmode⟩

/-- What is looked up may be looked up with another purpose, if that is not to make a file. -/
theorem LooksUp.change {cur : Location} {name : String} {rest rest' : List String}
    {last' : LastName} (h : fs.LooksUp last cur name rest) (hl : last' ≠ .filled) :
    fs.LooksUp last' cur name rest' :=
  { h with no_slash := fun hs => hl hs.2 }

/-! ## Splitting a walk -/

/-- **A walk along `xs ++ ys` starts with a walk along `xs`** that follows every link. -/
theorem Leads.of_append {b : Nat} {cur : Location} {xs ys : List String} {s : Spot}
    (h : Leads fs dots last b cur (xs ++ ys) s) (hys : ys ≠ []) :
    ∃ mid b', Leads fs dots .followed b cur xs (.present mid) ∧
      Leads fs dots last b' mid ys s := by
  generalize hn : xs ++ ys = names at h
  induction h generalizing xs with
  | arrive b cur => exact absurd (List.append_eq_nil_iff.mp hn).2 hys
  | @skip b cur rest s hdir hrest ih =>
    rcases List.append_eq_cons_iff.mp hn with ⟨rfl, rfl⟩ | ⟨xs, rfl, rfl⟩
    · exact ⟨cur, b, .arrive b cur, .skip hdir hrest⟩
    · obtain ⟨mid, b', h₁, h₂⟩ := ih rfl
      exact ⟨mid, b', .skip hdir h₁, h₂⟩
  | @here b cur rest s hdots hrest ih =>
    rcases List.append_eq_cons_iff.mp hn with ⟨rfl, rfl⟩ | ⟨xs, rfl, rfl⟩
    · exact ⟨cur, b, .arrive b cur, .here hdots hrest⟩
    · obtain ⟨mid, b', h₁, h₂⟩ := ih rfl
      exact ⟨mid, b', .here hdots h₁, h₂⟩
  | @up b cur rest s hdots hrest ih =>
    rcases List.append_eq_cons_iff.mp hn with ⟨rfl, rfl⟩ | ⟨xs, rfl, rfl⟩
    · exact ⟨cur, b, .arrive b cur, .up hdots hrest⟩
    · obtain ⟨mid, b', h₁, h₂⟩ := ih rfl
      exact ⟨mid, b', .up hdots h₁, h₂⟩
  | @free b cur name hlook hnode =>
    rcases List.append_eq_cons_iff.mp hn with ⟨rfl, rfl⟩ | ⟨xs, rfl, hnil⟩
    · exact ⟨cur, b, .arrive b cur, .free hlook hnode⟩
    · exact absurd (List.append_eq_nil_iff.mp hnil.symm).2 hys
  | @keep b cur name target hlook hnode hkept =>
    rcases List.append_eq_cons_iff.mp hn with ⟨rfl, rfl⟩ | ⟨xs, rfl, hnil⟩
    · exact ⟨cur, b, .arrive b cur, .keep hlook hnode hkept⟩
    · exact absurd (List.append_eq_nil_iff.mp hnil.symm).2 hys
  | @follow b cur name target rest s hlook hnode hkept hrest ih =>
    rcases List.append_eq_cons_iff.mp hn with ⟨rfl, rfl⟩ | ⟨xs, rfl, rfl⟩
    · exact ⟨cur, b + 1, .arrive _ cur, .follow hlook hnode hkept hrest⟩
    · obtain ⟨mid, b', h₁, h₂⟩ := ih (List.append_assoc ..)
      exact ⟨mid, b', .follow (hlook.change (by simp)) hnode (by simp) h₁, h₂⟩
  | @enter b cur name rest s node hlook hnode hlink hrest ih =>
    rcases List.append_eq_cons_iff.mp hn with ⟨rfl, rfl⟩ | ⟨xs, rfl, rfl⟩
    · exact ⟨cur, b, .arrive b cur, .enter hlook hnode hlink hrest⟩
    · obtain ⟨mid, b', h₁, h₂⟩ := ih rfl
      exact ⟨mid, b', .enter (hlook.change (by simp)) hnode hlink h₁, h₂⟩

/-- **A walk goes on from where its first part has led**, with what is left of the budget and
whatever the last name is for. -/
theorem Leads.resume {b : Nat} {cur mid : Location} {xs : List String}
    (h : Leads fs dots .followed b cur xs (.present mid)) :
    ∃ b', ∀ last ys, ys ≠ [] → ¬(ys = [""] ∧ last = .filled) →
      fs.walk dots last b cur (xs ++ ys) = fs.walk dots last b' mid ys := by
  generalize hs : Spot.present mid = s at h
  induction h with
  | arrive b cur => cases hs; exact ⟨b, fun last ys _ _ => rfl⟩
  | skip hdir _ ih =>
    obtain ⟨b', ih⟩ := ih hs
    obtain ⟨mode, hmode⟩ := hdir
    refine ⟨b', fun last ys hys hslash => ?_⟩
    rw [List.cons_append, ← ih last ys hys hslash, walk_eq, walkOn,
      directoryMode?_eq_some_iff.mpr hmode]
    simp
  | here hdots _ ih | up hdots _ ih =>
    obtain ⟨b', ih⟩ := ih hs
    obtain ⟨mode, hmode, hpass⟩ := hdots
    refine ⟨b', fun last ys hys hslash => ?_⟩
    rw [List.cons_append, ← ih last ys hys hslash, walk_eq, walkOn,
      directoryMode?_eq_some_iff.mpr hmode]
    cases dots <;> simp [Path.isDotName, hpass]
  | free => cases hs
  | keep _ _ hkept => cases hkept
  | @follow b cur name target rest s hlook hnode _ _ ih =>
    obtain ⟨b', ih⟩ := ih hs
    obtain ⟨⟨hne, hdot, hup⟩, ⟨mode, hmode, hpass⟩, -, hshort⟩ := hlook
    refine ⟨b', fun last ys hys hslash => ?_⟩
    have hslash' : ¬(rest ++ ys = [""] ∧ last = .filled) := hslash ∘ And.imp_left fun he =>
      ((List.append_eq_singleton_iff.mp he).resolve_right fun h => hys h.2).2
    rw [List.cons_append, ← ih last ys hys hslash, walk_eq, walkOn,
      directoryMode?_eq_some_iff.mpr hmode]
    simp [hne, hpass, hdot, hup, hslash', hys, Nat.not_lt.mpr hshort, hnode, linkStart,
      linkWalk_succ]
  | @enter b cur name rest s node hlook hnode hlink _ ih =>
    obtain ⟨b', ih⟩ := ih hs
    obtain ⟨⟨hne, hdot, hup⟩, ⟨mode, hmode, hpass⟩, -, hshort⟩ := hlook
    refine ⟨b', fun last ys hys hslash => ?_⟩
    have hslash' : ¬(rest ++ ys = [""] ∧ last = .filled) := hslash ∘ And.imp_left fun he =>
      ((List.append_eq_singleton_iff.mp he).resolve_right fun h => hys h.2).2
    rw [List.cons_append, ← ih last ys hys hslash, walk_eq, walkOn,
      directoryMode?_eq_some_iff.mpr hmode]
    cases node with
    | link target => exact absurd rfl (hlink target)
    | _ => simp [hne, hpass, hdot, hup, hslash', Nat.not_lt.mpr hshort, hnode]

/-- A single name that is kept is free, or it is what it names. -/
theorem Leads.of_single {b : Nat} {cur : Location} {name : String} {s : Spot}
    (h : Leads fs dots .kept b cur [name] s) (hname : IsName name) :
    s = .vacant cur name ∨
      s = .present (name :: cur) ∧ ∃ node, fs.node? (name :: cur) = some node := by
  cases h with
  | skip => exact absurd rfl hname.ne_empty
  | here => exact absurd rfl hname.ne_dot
  | up => exact absurd rfl hname.ne_up
  | free => exact Or.inl rfl
  | keep _ hnode => exact Or.inr ⟨rfl, _, hnode⟩
  | follow _ _ hkept => exact absurd ⟨rfl, rfl⟩ hkept
  | enter _ hnode _ h => cases h; exact Or.inr ⟨rfl, _, hnode⟩

/-- A single name that is no link is what it names. -/
theorem Leads.of_single_plain {b : Nat} {cur loc : Location} {name : String} {node : Node}
    (h : Leads fs dots last b cur [name] (.present loc)) (hname : IsName name)
    (hnode : fs.node? (name :: cur) = some node) (hlink : ∀ target, node ≠ .link target) :
    loc = name :: cur := by
  cases h with
  | skip => exact absurd rfl hname.ne_empty
  | here => exact absurd rfl hname.ne_dot
  | up => exact absurd rfl hname.ne_up
  | keep => rfl
  | follow _ hnode' =>
    rw [hnode] at hnode'
    exact absurd (Option.some.inj hnode') (hlink _)
  | enter _ _ _ h => cases h; rfl

/-! ## How dots and the last name are taken -/

/-- What is found by looking dot names up is found by understanding them. -/
theorem Leads.understood {b : Nat} {cur : Location} {names : List String} {s : Spot}
    (h : Leads fs dots last b cur names s) : Leads fs .understood last b cur names s := by
  have hdots {dir : Location} (h : fs.AllowsDots dots dir) : fs.AllowsDots .understood dir :=
    let ⟨mode, hmode, _⟩ := h
    ⟨mode, hmode, fun he => DotNames.noConfusion he⟩
  induction h with
  | arrive => exact .arrive _ _
  | skip hdir _ ih => exact .skip hdir ih
  | here h _ ih => exact .here (hdots h) ih
  | up h _ ih => exact .up (hdots h) ih
  | free hlook hnode => exact .free hlook hnode
  | keep hlook hnode hkept => exact .keep hlook hnode hkept
  | follow hlook hnode hkept _ ih => exact .follow hlook hnode hkept ih
  | enter hlook hnode hlink _ ih => exact .enter hlook hnode hlink ih

/-- **Keeping a link in last place** finds a node, or else what following it finds. -/
theorem Leads.kept {b : Nat} {cur : Location} {names : List String} {s : Spot}
    (h : Leads fs dots last b cur names s) :
    (∃ loc, Leads fs dots .kept b cur names (.present loc)) ∨
      Leads fs dots .kept b cur names s := by
  have hkept : LastName.kept ≠ .filled := by simp
  induction h with
  | arrive b cur => exact Or.inl ⟨cur, .arrive b cur⟩
  | skip hdir _ ih =>
    exact ih.imp (fun ⟨loc, h⟩ => ⟨loc, .skip hdir h⟩) (.skip hdir)
  | here hdots _ ih =>
    exact ih.imp (fun ⟨loc, h⟩ => ⟨loc, .here hdots h⟩) (.here hdots)
  | up hdots _ ih =>
    exact ih.imp (fun ⟨loc, h⟩ => ⟨loc, .up hdots h⟩) (.up hdots)
  | free hlook hnode => exact Or.inr (.free (hlook.change hkept) hnode)
  | keep hlook hnode _ => exact Or.inr (.keep (hlook.change hkept) hnode rfl)
  | @follow b cur name target rest s hlook hnode _ _ ih =>
    by_cases hrest : rest = []
    · subst hrest
      exact Or.inl ⟨_, .keep (hlook.change hkept) hnode rfl⟩
    · have hfol : ¬(rest = [] ∧ LastName.kept = .kept) := fun h => hrest h.1
      exact ih.imp (fun ⟨loc, h⟩ => ⟨loc, .follow (hlook.change hkept) hnode hfol h⟩)
        (.follow (hlook.change hkept) hnode hfol)
  | enter hlook hnode hlink _ ih =>
    exact ih.imp (fun ⟨loc, h⟩ => ⟨loc, .enter (hlook.change hkept) hnode hlink h⟩)
      (.enter (hlook.change hkept) hnode hlink)

/-- What stands where a file would be made is found there. -/
theorem Leads.followed {b : Nat} {cur : Location} {names : List String} {s : Spot}
    (h : Leads fs dots .filled b cur names s) : Leads fs dots .followed b cur names s := by
  have hfollowed : LastName.followed ≠ .filled := by simp
  induction h with
  | arrive b cur => exact .arrive b cur
  | skip hdir _ ih => exact .skip hdir ih
  | here hdots _ ih => exact .here hdots ih
  | up hdots _ ih => exact .up hdots ih
  | free hlook hnode => exact .free (hlook.change hfollowed) hnode
  | keep _ _ hkept => cases hkept
  | follow hlook hnode _ _ ih =>
    exact .follow (hlook.change hfollowed) hnode (fun h => LastName.noConfusion h.2) ih
  | enter hlook hnode hlink _ ih => exact .enter (hlook.change hfollowed) hnode hlink ih

/-! ## Steps that do not move -/

/-- A step that a walk takes on the spot. -/
def IsIdleStep (name : String) : Prop := name = "" ∨ name = "."

instance (name : String) : Decidable (IsIdleStep name) := inferInstanceAs (Decidable (_ ∨ _))

theorem Leads.of_idle {b : Nat} {cur loc : Location} {names : List String}
    (h : Leads fs dots last b cur names (.present loc)) (hidle : ∀ n ∈ names, IsIdleStep n) :
    loc = cur := by
  generalize hs : Spot.present loc = s at h
  induction h with
  | arrive => cases hs; rfl
  | skip _ _ ih | here _ _ ih => exact ih (fun n hn => hidle n (List.mem_cons_of_mem _ hn)) hs
  | up => exact absurd (hidle ".." List.mem_cons_self) (by simp [IsIdleStep])
  | free => cases hs
  | keep hlook | follow hlook | enter hlook =>
    rcases hidle _ List.mem_cons_self with he | he
    · exact absurd he hlook.proper.1
    · exact absurd he hlook.proper.2.1

/-- The names `xs` are the names `ys` with idle steps before some of them. -/
inductive Pads : List String → List String → Prop
  | nil : Pads [] []
  | cons (name : String) {xs ys : List String} : Pads xs ys → Pads (name :: xs) (name :: ys)
  | pad {name : String} {xs ys : List String} : IsIdleStep name → xs ≠ [] → Pads xs ys →
      Pads (name :: xs) ys

theorem Pads.refl : ∀ xs, Pads xs xs
  | [] => .nil
  | x :: xs => .cons x (Pads.refl xs)

theorem Pads.append_left {xs ys : List String} (h : Pads xs ys) :
    ∀ ws, Pads (ws ++ xs) (ws ++ ys)
  | [] => h
  | w :: ws => .cons w (h.append_left ws)

theorem Pads.append_right {xs ys : List String} (h : Pads xs ys) (ws : List String) :
    Pads (xs ++ ws) (ys ++ ws) := by
  induction h with
  | nil => exact .refl ws
  | cons name _ ih => exact .cons name ih
  | pad hidle hne _ ih => exact .pad hidle (fun he => hne (List.append_eq_nil_iff.mp he).1) ih

theorem Pads.nil_iff {xs ys : List String} (h : Pads xs ys) : xs = [] ↔ ys = [] := by
  induction h with
  | nil => simp
  | cons => simp
  | pad _ hne _ ih => simpa [hne] using ih

/-- Nothing can be looked up where there is no directory. -/
theorem walk_of_not_directory {cur : Location} (h : fs.directoryMode? cur = none) (b : Nat)
    {names : List String} (hne : names ≠ []) :
    fs.walk dots last b cur names = match fs.node? cur with
      | none => .error .notFound
      | some _ => .error .notDirectory := by
  cases names with
  | nil => exact absurd rfl hne
  | cons name rest => cases hnode : fs.node? cur <;> simp only [walk_eq, walkOn, h, hnode]

/-- **Idle steps before others change nothing**, be it in the outcome or in the error. -/
theorem walk_of_pads (hl : last ≠ .filled) {b : Nat} {cur : Location} {xs ys : List String}
    (h : Pads xs ys) :
    fs.walk .understood last b cur xs = fs.walk .understood last b cur ys := by
  induction b using Nat.strongRecOn generalizing cur xs ys with
  | ind b ihb =>
    induction h generalizing cur with
    | nil => rfl
    | @cons name xs ys hp ih =>
      have hnil : (xs = []) = (ys = []) := propext hp.nil_iff
      have hfollow (target : String) (cur : Location) :
          fs.linkWalk .understood last b cur (Path.walkSteps ⟨target⟩ ++ xs) =
            fs.linkWalk .understood last b cur (Path.walkSteps ⟨target⟩ ++ ys) := by
        cases b with
        | zero => rfl
        | succ b => exact ihb b (Nat.lt_succ_self b) (hp.append_left (Path.walkSteps ⟨target⟩))
      rw [walk_eq] at ih ⊢
      simp only [walkOn, ih, hnil, hl, and_false, hfollow]
    | @pad name xs ys hidle hne hp ih =>
      cases hmode : fs.directoryMode? cur with
      | none =>
        have hys : ys ≠ [] := fun he => hne (hp.nil_iff.mpr he)
        rw [walk_of_not_directory hmode b (List.cons_ne_nil _ _),
          walk_of_not_directory hmode b hys]
      | some mode =>
        rw [← ih, walk_eq, walkOn, hmode]
        rcases hidle with rfl | rfl <;> simp [Path.isDotName]

/-! ## Walks in changing file systems -/

/-- A walk depends on the nodes only. -/
theorem walk_congr (h : ∀ loc, fs'.node? loc = fs.node? loc) (dots : DotNames) (last : LastName)
    (b : Nat) (cur : Location) (names : List String) :
    fs'.walk dots last b cur names = fs.walk dots last b cur names := by
  have hdir (loc : Location) : fs'.directoryMode? loc = fs.directoryMode? loc := by
    rw [directoryMode?, directoryMode?, h]
  induction b using Nat.strongRecOn generalizing cur names with
  | ind b ihb =>
    have hfollow (cur : Location) (names : List String) :
        fs'.linkWalk dots last b cur names = fs.linkWalk dots last b cur names := by
      cases b with
      | zero => rfl
      | succ b => exact ihb b (Nat.lt_succ_self b) cur names
    rw [walk_eq, walk_eq]
    induction names generalizing cur with
    | nil => rw [walkOn, walkOn]
    | cons name rest ih => simp only [walkOn, hdir, h, ih, hfollow]

/-- A location holds something that is not a link. -/
def HoldsPlain (fs : FileSystem) (loc : Location) : Prop :=
  ∃ node, fs.node? loc = some node ∧ ∀ target, node ≠ .link target

theorem holdsPlain_of_directory {loc : Location}
    (h : ∃ mode, fs.node? loc = some (.directory mode)) : fs.HoldsPlain loc :=
  let ⟨_, hmode⟩ := h
  ⟨_, hmode, fun _ he => Node.noConfusion he⟩

/-- All that a walk can see in one file system is there in another. -/
structure Shows (fs fs' : FileSystem) : Prop where
  directory : ∀ loc mode, fs.node? loc = some (.directory mode) →
    fs'.node? loc = some (.directory mode)
  link : ∀ loc target, fs.node? loc = some (.link target) → fs'.node? loc = some (.link target)
  plain : ∀ loc, fs.HoldsPlain loc → fs'.HoldsPlain loc

theorem NodesIn.shows (h : NodesIn fs fs') : Shows fs fs' where
  directory _ _ := h _ _
  link _ _ := h _ _
  plain _ := fun ⟨node, hnode, hlink⟩ => ⟨node, h _ _ hnode, hlink⟩

/-- Where all that is held is held, all that a walk can see is there. -/
theorem shows_of_entries (h : ∀ loc e, fs.entry? loc = some e → fs'.entry? loc = some e) :
    Shows fs fs' := by
  have hnode (loc : Location) (node : Node) (hn : fs.node? loc = some node) :
      (∃ mode, node = .directory mode ∧ fs'.node? loc = some (.directory mode)) ∨
        (∃ target, node = .link target ∧ fs'.node? loc = some (.link target)) ∨
        ∃ n m, node = .file n ∧ fs'.node? loc = some (.file m) := by
    have he := h loc _ (by rw [FileSystem.entry?, hn]; rfl)
    rw [FileSystem.entry?] at he
    obtain ⟨node', hn', he⟩ := Option.map_eq_some_iff.mp he
    cases node <;> cases node' <;> simp_all
  constructor
  · intro loc mode hn
    obtain ⟨_, he, h'⟩ | ⟨_, he, -⟩ | ⟨_, _, he, -⟩ := hnode loc _ hn <;> cases he
    exact h'
  · intro loc target hn
    obtain ⟨_, he, -⟩ | ⟨_, he, h'⟩ | ⟨_, _, he, -⟩ := hnode loc _ hn <;> cases he
    exact h'
  · rintro loc ⟨node, hn, hlink⟩
    obtain ⟨_, -, h'⟩ | ⟨_, he, -⟩ | ⟨_, _, -, h'⟩ := hnode loc _ hn
    · exact ⟨_, h', by simp⟩
    · exact absurd he (hlink _)
    · exact ⟨_, h', by simp⟩

/-- **A walk that ends at a node ends there** wherever it sees the same. -/
theorem Leads.mono_of_shows {b : Nat} {cur loc : Location} {names : List String}
    (h : Leads fs dots last b cur names (.present loc)) (hin : Shows fs fs') :
    Leads fs' dots last b cur names (.present loc) := by
  have hlooks {cur : Location} {name : String} {rest : List String}
      (h : fs.LooksUp last cur name rest) : fs'.LooksUp last cur name rest :=
    { h with pass := h.pass.imp fun mode hm => ⟨hin.directory _ _ hm.1, hm.2⟩ }
  have hdots {dir : Location} (h : fs.AllowsDots dots dir) : fs'.AllowsDots dots dir :=
    h.imp fun mode hm => ⟨hin.directory _ _ hm.1, hm.2⟩
  generalize hs : Spot.present loc = s at h
  induction h with
  | arrive => cases hs; exact .arrive _ _
  | skip hdir _ ih => exact .skip (hdir.imp fun _ => hin.directory _ _) (ih hs)
  | here h _ ih => exact .here (hdots h) (ih hs)
  | up h _ ih => exact .up (hdots h) (ih hs)
  | free => cases hs
  | keep hlook hnode hkept => cases hs; exact .keep (hlooks hlook) (hin.link _ _ hnode) hkept
  | follow hlook hnode hkept _ ih =>
    exact .follow (hlooks hlook) (hin.link _ _ hnode) hkept (ih hs)
  | enter hlook hnode hlink _ ih =>
    obtain ⟨node', hnode', hlink'⟩ := hin.plain _ ⟨_, hnode, hlink⟩
    exact .enter (hlooks hlook) hnode' hlink' (ih hs)

/-- A walk that ends at a node ends there wherever there are more nodes. -/
theorem Leads.mono {b : Nat} {cur loc : Location} {names : List String}
    (h : Leads fs dots last b cur names (.present loc)) (hin : NodesIn fs fs') :
    Leads fs' dots last b cur names (.present loc) :=
  h.mono_of_shows hin.shows

/-- A free name has been looked up in a directory. -/
theorem Leads.looksUp_of_vacant {b : Nat} {cur dir : Location} {names : List String}
    {name : String} (h : Leads fs dots last b cur names (.vacant dir name)) :
    fs.LooksUp last dir name [] ∧ fs.node? (name :: dir) = none := by
  generalize hs : Spot.vacant dir name = s at h
  induction h with
  | arrive | keep => cases hs
  | skip _ _ ih | here _ _ ih | up _ _ ih | follow _ _ _ _ ih | enter _ _ _ _ ih => exact ih hs
  | free hlook hnode => cases hs; exact ⟨hlook, hnode⟩

/-- A free name is one in a directory. -/
theorem Leads.of_vacant {b : Nat} {cur dir : Location} {names : List String} {name : String}
    (h : Leads fs dots last b cur names (.vacant dir name)) :
    (∃ mode, fs.node? dir = some (.directory mode)) ∧ fs.node? (name :: dir) = none :=
  ⟨h.looksUp_of_vacant.1.isDirectory, h.looksUp_of_vacant.2⟩

/-- A free name is one that a directory can hold. -/
theorem Leads.isName_of_vacant {b : Nat} {cur dir : Location} {names : List String}
    {name : String} (h : Leads fs dots last b cur names (.vacant dir name))
    (hslash : ∀ n ∈ names, '/' ∉ n.toList) : IsName name := by
  generalize hs : Spot.vacant dir name = s at h
  have hrest {n : String} {rest : List String} (h : ∀ m ∈ n :: rest, '/' ∉ m.toList) :
      ∀ m ∈ rest, '/' ∉ m.toList := fun m hm => h m (List.mem_cons_of_mem _ hm)
  induction h with
  | arrive | keep => cases hs
  | skip _ _ ih | here _ _ ih | up _ _ ih | enter _ _ _ _ ih => exact ih (hrest hslash) hs
  | free hlook =>
    cases hs
    obtain ⟨hne, hdot, hup⟩ := hlook.proper
    exact ⟨hne, hdot, hup, hslash _ List.mem_cons_self⟩
  | follow _ _ _ _ ih =>
    refine ih (fun n hn => ?_) hs
    rcases List.mem_append.mp hn with hn | hn
    · exact Path.slashFree_walkSteps _ n hn
    · exact hrest hslash n hn

/-- **What has been put at a free name is found there**, unless it is a link. -/
theorem Leads.fill {b : Nat} {cur dir : Location} {names : List String} {name : String}
    {node : Node} (h : Leads fs dots last b cur names (.vacant dir name)) (hin : Shows fs fs')
    (hnode : fs'.node? (name :: dir) = some node) (hlink : ∀ target, node ≠ .link target) :
    Leads fs' dots .followed b cur names (.present (name :: dir)) := by
  have hlooks {cur : Location} {name : String} {rest : List String}
      (h : fs.LooksUp last cur name rest) : fs'.LooksUp .followed cur name rest :=
    { h with
      pass := h.pass.imp fun mode hm => ⟨hin.directory _ _ hm.1, hm.2⟩
      no_slash := fun hs => LastName.noConfusion hs.2 }
  have hdots {dir : Location} (h : fs.AllowsDots dots dir) : fs'.AllowsDots dots dir :=
    h.imp fun mode hm => ⟨hin.directory _ _ hm.1, hm.2⟩
  generalize hs : Spot.vacant dir name = s at h
  induction h with
  | arrive | keep => cases hs
  | skip hdir _ ih => exact .skip (hdir.imp fun _ => hin.directory _ _) (ih hs)
  | here h _ ih => exact .here (hdots h) (ih hs)
  | up h _ ih => exact .up (hdots h) (ih hs)
  | free hlook => cases hs; exact .enter (hlooks hlook) hnode hlink (.arrive _ _)
  | follow hlook hn _ _ ih =>
    exact .follow (hlooks hlook) (hin.link _ _ hn) (fun hk => LastName.noConfusion hk.2) (ih hs)
  | enter hlook hn hl _ ih =>
    obtain ⟨node', hn', hl'⟩ := hin.plain _ ⟨_, hn, hl⟩
    exact .enter (hlooks hlook) hn' hl' (ih hs)

/-- **What a free name has become** is found there, be it a link that is kept, and as long
as the name is free it is found free. -/
theorem Leads.spot_kept {b : Nat} {cur dir : Location} {names : List String} {name : String}
    (h : Leads fs dots .kept b cur names (.vacant dir name)) (hin : Shows fs fs') :
    Leads fs' dots .kept b cur names
      (if (fs'.node? (name :: dir)).isSome then .present (name :: dir) else .vacant dir name) := by
  have hlooks {cur : Location} {name : String} {rest : List String}
      (h : fs.LooksUp .kept cur name rest) : fs'.LooksUp .kept cur name rest :=
    { h with pass := h.pass.imp fun mode hm => ⟨hin.directory _ _ hm.1, hm.2⟩ }
  have hdots {dir : Location} (h : fs.AllowsDots dots dir) : fs'.AllowsDots dots dir :=
    h.imp fun mode hm => ⟨hin.directory _ _ hm.1, hm.2⟩
  generalize hl : LastName.kept = last at h
  generalize hs : Spot.vacant dir name = s at h
  subst hl
  induction h with
  | arrive | keep => cases hs
  | skip hdir _ ih => exact .skip (hdir.imp fun _ => hin.directory _ _) (ih hs)
  | here h _ ih => exact .here (hdots h) (ih hs)
  | up h _ ih => exact .up (hdots h) (ih hs)
  | free hlook =>
    cases hs
    cases hnode : fs'.node? (name :: dir) with
    | none => exact .free (hlooks hlook) hnode
    | some node =>
      cases node with
      | link target => exact .keep (hlooks hlook) hnode rfl
      | _ => exact .enter (hlooks hlook) hnode (by simp) (.arrive _ _)
  | follow hlook hn hkept _ ih => exact .follow (hlooks hlook) (hin.link _ _ hn) hkept (ih hs)
  | enter hlook hn hl _ ih =>
    obtain ⟨node', hn', hl'⟩ := hin.plain _ ⟨_, hn, hl⟩
    exact .enter (hlooks hlook) hn' hl' (ih hs)

/-! ## What a walk finds -/

/-- Where a walk takes a step there is a directory. -/
theorem Leads.start_isDirectory {b : Nat} {cur : Location} {names : List String} {s : Spot}
    (h : Leads fs dots last b cur names s) (hne : names ≠ []) :
    ∃ mode, fs.node? cur = some (.directory mode) := by
  cases h with
  | arrive => exact absurd rfl hne
  | skip hdir => exact hdir
  | here hdots | up hdots => exact hdots.imp fun _ hm => hm.1
  | free hlook | keep hlook | follow hlook | enter hlook => exact hlook.isDirectory

/-- **A walk that follows every link** does not end at one. -/
theorem Leads.holdsPlain (hwf : fs.WellFormed) {b : Nat} {cur loc : Location}
    {names : List String} (h : Leads fs dots .followed b cur names (.present loc))
    (hcur : fs.HoldsPlain cur) : fs.HoldsPlain loc := by
  generalize hs : Spot.present loc = s at h
  induction h with
  | arrive => cases hs; exact hcur
  | skip _ _ ih | here _ _ ih => exact ih hcur hs
  | @up b cur rest s hdots _ ih =>
    refine ih (holdsPlain_of_directory ?_) hs
    obtain ⟨mode, hmode, -⟩ := hdots
    cases cur with
    | nil => exact ⟨_, rfl⟩
    | cons name dir => exact (hwf.parent hmode).2
  | free => cases hs
  | keep _ _ hkept => cases hkept
  | @follow b cur name target rest s hlook _ _ _ ih =>
    refine ih ?_ hs
    rw [linkStart]
    split
    · exact holdsPlain_of_directory ⟨_, rfl⟩
    · exact holdsPlain_of_directory hlook.isDirectory
  | enter _ hnode hlink _ ih => exact ih ⟨_, hnode, hlink⟩ hs

/-- **A walk along proper names through directories only** goes straight down. -/
theorem Leads.straight {b : Nat} {cur : Location} {names : List String} {s : Spot}
    (h : Leads fs dots last b cur names s) (hn : ∀ n ∈ names, IsName n)
    (hdirs : ∀ pre node, pre ≠ [] → pre <+: names → fs.node? (pre.reverse ++ cur) = some node →
      ∃ mode, node = .directory mode) :
    s = .present (names.reverse ++ cur) ∨
      ∃ init name, names = init ++ [name] ∧ s = .vacant (init.reverse ++ cur) name := by
  induction names generalizing cur with
  | nil => cases h; exact Or.inl rfl
  | cons n names ih =>
    have hname := hn n List.mem_cons_self
    have hdir (node) (hnode : fs.node? (n :: cur) = some node) : ∃ mode, node = .directory mode :=
      hdirs [n] node (by simp) (by simp) hnode
    cases h with
    | skip => exact absurd rfl hname.ne_empty
    | here => exact absurd rfl hname.ne_dot
    | up => exact absurd rfl hname.ne_up
    | free => exact Or.inr ⟨[], n, rfl, rfl⟩
    | keep _ hnode | follow _ hnode =>
      obtain ⟨mode, he⟩ := hdir _ hnode
      cases he
    | enter hlook hnode hlink h =>
      have hbelow (pre) (node) (hpre : pre <+: names)
          (hnode : fs.node? (pre.reverse ++ n :: cur) = some node) :
          ∃ mode, node = .directory mode := by
        refine hdirs (n :: pre) node (by simp) (List.cons_prefix_cons.mpr ⟨rfl, hpre⟩) ?_
        simpa using hnode
      rcases ih h (fun m hm => hn m (List.mem_cons_of_mem _ hm))
        (fun pre node _ hpre => hbelow pre node hpre) with rfl | ⟨init, m, rfl, rfl⟩
      · exact Or.inl (by simp)
      · exact Or.inr ⟨n :: init, m, rfl, by simp⟩

/-- A walk may take idle steps first, in a directory that allows them. -/
theorem Leads.after_idle {b : Nat} {cur : Location} {names rest : List String} {s : Spot}
    (h : Leads fs dots last b cur rest s) (hdots : fs.AllowsDots dots cur)
    (hidle : ∀ n ∈ names, IsIdleStep n) : Leads fs dots last b cur (names ++ rest) s := by
  induction names with
  | nil => exact h
  | cons name names ih =>
    have hrest := ih fun n hn => hidle n (List.mem_cons_of_mem _ hn)
    rcases hidle name List.mem_cons_self with rfl | rfl
    · exact .skip (hdots.imp fun _ hm => hm.1) hrest
    · exact .here hdots hrest

/-- Idle steps can be taken in a directory. -/
theorem leads_idle {b : Nat} {cur : Location} {names : List String}
    (hdir : ∃ mode, fs.node? cur = some (.directory mode)) (hidle : ∀ n ∈ names, IsIdleStep n) :
    Leads fs .understood last b cur names (.present cur) := by
  have hdots : fs.AllowsDots .understood cur :=
    hdir.imp fun _ hmode => ⟨hmode, fun he => DotNames.noConfusion he⟩
  simpa using (Leads.arrive b cur).after_idle hdots hidle

/-! ## Walks that miss something -/

/-- A walk has ended because a name is missing, be it the last one or another. -/
def IsMissing (r : Except OsError Spot) : Prop :=
  r = .error .notFound ∨ ∃ dir name, r = .ok (.vacant dir name)

theorem not_isMissing_present (loc : Location) : ¬IsMissing (.ok (.present loc)) := by
  rintro (h | ⟨dir, name, h⟩) <;> cases h

theorem not_isMissing_error {e : OsError} (he : e ≠ .notFound) : ¬IsMissing (.error e) := by
  rintro (h | ⟨dir, name, h⟩)
  · exact he (Except.error.inj h)
  · cases h

section Missing
variable {b : Nat} {cur : Location} {node : Node} {names : List String}
  (hidle : ∀ n ∈ names, IsIdleStep n)
include hidle

/-- Idle steps miss nothing. -/
theorem not_isMissing_idle (hnode : fs.node? cur = some node) :
    ¬IsMissing (fs.walk .understood last b cur names) := by
  by_cases hdir : ∃ mode, fs.node? cur = some (.directory mode)
  · rw [walk_of_leads (leads_idle hdir hidle)]
    exact not_isMissing_present cur
  by_cases hne : names = []
  · rw [hne, walk_of_leads (.arrive b cur)]
    exact not_isMissing_present cur
  rw [walk_of_not_directory (directoryMode?_eq_none hdir) b hne, hnode]
  exact not_isMissing_error (by decide)

/-- A name for which a directory holds no link is not missed. -/
theorem not_isMissing_name (hwf : fs.WellFormed) {name : String}
    (hplain : fs.HoldsPlain (name :: cur)) :
    ¬IsMissing (fs.walk .understood .followed b cur (name :: names)) := by
  obtain ⟨node, hnode, hlink⟩ := hplain
  obtain ⟨hname, mode, hmode⟩ := hwf.parent hnode
  have hrest : ¬IsMissing (fs.walk .understood .followed b (name :: cur) names) :=
    not_isMissing_idle hidle hnode
  rw [walk_eq] at hrest ⊢
  rw [walkOn, directoryMode?_eq_some_iff.mpr hmode]
  simp only [hname.ne_empty, hname.ne_dot, hname.ne_up, if_false, and_false, hnode,
    reduceCtorEq]
  split
  · exact not_isMissing_error (by decide)
  split
  · exact not_isMissing_error (by decide)
  cases node with
  | link target => exact absurd rfl (hlink target)
  | _ => exact hrest

/-- The step to the parent is not missed. -/
theorem not_isMissing_up (hwf : fs.WellFormed) (hnode : fs.node? cur = some node) :
    ¬IsMissing (fs.walk .understood last b cur (".." :: names)) := by
  by_cases hdir : ∃ mode, fs.node? cur = some (.directory mode)
  · obtain ⟨mode, hmode⟩ := hdir
    have htail : ∃ mode, fs.node? cur.tail = some (.directory mode) := by
      cases cur with
      | nil => exact ⟨_, rfl⟩
      | cons name dir => exact (hwf.parent hmode).2
    have hback : Leads fs .understood last b cur.tail names (.present cur.tail) :=
      leads_idle htail hidle
    have hup := hback.up ⟨mode, hmode, fun he => DotNames.noConfusion he⟩
    rw [walk_of_leads hup]
    exact not_isMissing_present _
  · rw [walk_of_not_directory (directoryMode?_eq_none hdir) b (List.cons_ne_nil _ _), hnode]
    exact not_isMissing_error (by decide)

end Missing

end Stowage.FileSystem
