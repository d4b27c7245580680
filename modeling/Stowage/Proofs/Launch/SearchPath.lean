import Stowage.Proofs.Launch.Messages
import Stowage.Proofs.Path.Parents

/-!
# Homes on the search path

A home is made visible by a process, then by the process that it starts, and so on: the
variable that lists the directories is rewritten any number of times.  Each time the list
is split, filtered and joined again, so that one call only means something for the next
one because a joined list splits into what it was joined from (`entries_join`).

`expose_iff_hidden` describes one call and what is left of the value from before the
first of any number of calls.  Two homes cannot be put on the list.  One with a colon is
refused, but only after the present value has been kept (`refused_iff_colon`); one with a NUL
makes the call panic (`nul_home_panics`).
-/

namespace Stowage.LibraryPath

variable {home : Path} {env : Environment} {initial : String}

/-- The directories that the loader searches. -/
def searched (env : Environment) : List Path :=
  match env.get? pathVariable with
  | some value => entries value
  | none => []

/-- Whether a home is one of the directories that are searched, however it is written. -/
def Visible (home : Path) (env : Environment) : Prop :=
  ∃ p ∈ searched env, p.same home = true

instance (home : Path) (env : Environment) : Decidable (Visible home env) :=
  inferInstanceAs (Decidable (∃ p ∈ searched env, p.same home = true))

theorem containsHome_iff : containsHome home (env.get? pathVariable) = true ↔ Visible home env := by
  unfold Visible searched
  cases env.get? pathVariable <;> simp [containsHome]

/-! ## The new list -/

/-- Every colon separates, so none is left in an entry. -/
theorem colon_notMem_of_mem_searched {p : Path} (h : p ∈ searched env) : ':' ∉ p.chars := by
  rw [searched] at h
  split at h
  · obtain ⟨cs, hcs, rfl⟩ := List.mem_map.mp h
    rw [Path.chars_ofChars]
    exact Path.not_mem_of_mem_splitOn hcs
  · cases h

/-- What a home is put in front of is joined again. -/
theorem withHome_eq_join (home : Path) (env : Environment) :
    withHome home (env.get? pathVariable) =
      join (home :: (searched env).filter (·.text ≠ "")) := by
  unfold searched
  cases env.get? pathVariable <;> rfl

/-- **A home without a colon can be put in front of any list.** -/
theorem withHome_eq_ok (hcolon : ':' ∉ home.chars) (env : Environment) :
    ∃ value, withHome home (env.get? pathVariable) = .ok value ∧
      entries value = home :: (searched env).filter (·.text ≠ "") := by
  have hfree : ((home :: (searched env).filter (·.text ≠ "")).any (·.chars.contains ':')) =
      false := by
    rw [List.any_eq_false]
    intro p hp
    rcases List.mem_cons.mp hp with rfl | hp
    · simpa using hcolon
    · simpa using colon_notMem_of_mem_searched (List.mem_filter.mp hp).1
  have hjoin : join (home :: (searched env).filter (·.text ≠ "")) = .ok _ :=
    if_neg (by rw [hfree]; exact Bool.false_ne_true)
  exact ⟨_, (withHome_eq_join home env).trans hjoin, entries_join (List.cons_ne_nil _ _) hjoin⟩

/-! ## The value from before -/

/-- The present value is kept where none is kept already. -/
theorem get?_keepFirst_kept (env : Environment) :
    (keepFirst env).get? keptVariable = (env.get? keptVariable).or (env.get? pathVariable) := by
  cases hpath : env.get? pathVariable <;> cases hkept : env.get? keptVariable <;>
    simp [keepFirst, hpath, hkept]

/-! ## One call -/

/-- What a call leaves that has put a home in front. -/
structure Augmented (home : Path) (env env' : Environment) : Prop where
  searched_eq : searched env' = home :: (searched env).filter (·.text ≠ "")
  kept_eq : env'.get? keptVariable = (env.get? keptVariable).or (env.get? pathVariable)
  other_eq : ∀ key, key ≠ pathVariable → key ≠ keptVariable → env'.get? key = env.get? key

theorem Augmented.visible {env' : Environment} (h : Augmented home env env') :
    Visible home env' :=
  ⟨home, h.searched_eq ▸ List.mem_cons_self, by simp [Path.same]⟩

theorem expose_of_visible (h : Visible home env) : expose home env = (.ok false, env) := by
  rw [expose, if_pos (containsHome_iff.mpr h)]

theorem expose_of_hidden (hcolon : ':' ∉ home.chars) (hnul : '\x00' ∉ home.chars)
    (h : ¬Visible home env) :
    ∃ env', expose home env = (.ok true, env') ∧ Augmented home env env' := by
  obtain ⟨value, hvalue, hentries⟩ := withHome_eq_ok hcolon env
  have hexpose : expose home env = (.ok true, (keepFirst env).set pathVariable value) := by
    rw [expose, if_neg (mt containsHome_iff.mp h)]
    dsimp only
    rw [hvalue]
    exact if_neg (by simpa using hnul)
  have hother (key : String) (hpath : key ≠ pathVariable) (hkept : key ≠ keptVariable) :=
    get?_expose home env hpath hkept
  rw [hexpose] at hother
  refine ⟨_, hexpose, ?_, ?_, hother⟩
  · rw [searched, Environment.get?_set_self]
    exact hentries
  · rw [Environment.get?_set_of_ne _ _ (by decide), get?_keepFirst_kept]

/-- **No variable can hold a NUL**, so a call that would have to set one does not return.  The
present value has been kept by then. -/
theorem expose_of_nul (hcolon : ':' ∉ home.chars) (hnul : '\x00' ∈ home.chars)
    (h : ¬Visible home env) :
    ∃ message, expose home env = (.panicked message, keepFirst env) := by
  obtain ⟨value, hvalue, -⟩ := withHome_eq_ok hcolon env
  refine ⟨unsettable value, ?_⟩
  rw [expose, if_neg (mt containsHome_iff.mp h)]
  dsimp only
  rw [hvalue]
  exact if_pos (by simpa using hnul)

/-- A value is not lost: it is kept, or the list still has it. -/
def Preserves (initial : String) (env : Environment) : Prop :=
  env.get? keptVariable = some initial ∨
    env.get? keptVariable = none ∧ env.get? pathVariable = some initial

/-- A call keeps the present value or changes nothing. -/
theorem get?_expose_kept (home : Path) (env : Environment) :
    (expose home env).2.get? keptVariable = (env.get? keptVariable).or (env.get? pathVariable) ∨
      (expose home env).2 = env := by
  rcases expose_cases home env with ⟨-, hsame⟩ | ⟨value, -, hset⟩ | ⟨-, hstops⟩
  · exact .inr (congrArg Prod.snd hsame)
  · refine .inl ?_
    rw [hset, Environment.get?_set_of_ne _ _ (by decide), get?_keepFirst_kept]
  · refine .inl ?_
    rw [hstops, get?_keepFirst_kept]

theorem get?_expose_of_kept (home : Path) (h : env.get? keptVariable = some initial) :
    (expose home env).2.get? keptVariable = some initial := by
  rcases get?_expose_kept home env with hkept | hsame
  · rw [hkept, h, Option.some_or]
  · rw [hsame, h]

/-- **One call preserves a value.** -/
theorem Preserves.expose (h : Preserves initial env) (home : Path) :
    Preserves initial (expose home env).2 := by
  rcases h with hkept | ⟨hkept, hpath⟩
  · exact .inl (get?_expose_of_kept home hkept)
  · rcases get?_expose_kept home env with hnow | hsame
    · refine .inl ?_
      rw [hnow, hkept, hpath, Option.none_or]
    · rw [hsame]
      exact .inr ⟨hkept, hpath⟩

/-- No list has a home with a colon, however it is written: what counts as equal has the same
components, and a colon is part of one. -/
theorem not_visible_of_colon (hcolon : ':' ∈ home.chars) (env : Environment) :
    ¬Visible home env := by
  rintro ⟨p, hp, hsame⟩
  have hcomponents : p.components = home.components := eq_of_beq hsame
  obtain ⟨x, hx, hc⟩ := Path.exists_component_of_mem hcolon (by decide) (by decide)
  exact colon_notMem_of_mem_searched hp (Path.mem_chars_of_mem_components (hcomponents ▸ hx) hc)

/-- **A home with a colon is refused**, but the present value is kept before. -/
theorem expose_of_colon (hcolon : ':' ∈ home.chars) (env : Environment) :
    expose home env = (.error (.io .separatorInEntry), keepFirst env) := by
  have hjoin : withHome home (env.get? pathVariable) = .error .separatorInEntry := by
    rw [withHome_eq_join, join, if_pos]
    exact List.any_eq_true.mpr ⟨home, List.mem_cons_self, by simpa using hcolon⟩
  rw [expose, if_neg (mt containsHome_iff.mp (not_visible_of_colon hcolon env))]
  dsimp only
  rw [hjoin]

theorem expose_fails_iff (home : Path) (env : Environment) :
    (∃ e, (expose home env).1 = .error e) ↔ ':' ∈ home.chars := by
  constructor
  · rintro ⟨e, he⟩
    refine Decidable.byContradiction fun hcolon => ?_
    by_cases hvisible : Visible home env
    · rw [expose_of_visible hvisible] at he
      cases he
    · by_cases hnul : '\x00' ∈ home.chars
      · obtain ⟨message, hexpose⟩ := expose_of_nul hcolon hnul hvisible
        rw [hexpose] at he
        cases he
      · obtain ⟨env', hexpose, -⟩ := expose_of_hidden hcolon hnul hvisible
        rw [hexpose] at he
        cases he
  · intro hcolon
    exact ⟨_, congrArg Prod.fst (expose_of_colon hcolon env)⟩

/-- Keeping the present value changes nothing where a value is kept or there is no list. -/
theorem keepFirst_idle_iff : (∀ key, (keepFirst env).get? key = env.get? key) ↔
    env.get? keptVariable ≠ none ∨ env.get? pathVariable = none := by
  have hkept := get?_keepFirst_kept env
  constructor
  · intro hall
    rw [hall keptVariable] at hkept
    cases hbefore : env.get? keptVariable with
    | some value => exact .inl nofun
    | none =>
      rw [hbefore, Option.none_or] at hkept
      exact .inr hkept.symm
  · intro h key
    by_cases hkey : key = keptVariable
    · subst hkey
      rw [hkept]
      cases hbefore : env.get? keptVariable with
      | some value => rfl
      | none => rw [Option.none_or, h.resolve_left (absurd hbefore)]
    · exact get?_keepFirst_of_ne env hkey

/-- **What a refusal leaves.**  A home is refused exactly if it has a colon.  The value of the list
is then kept unless one is kept already, and no other variable changes; so the environment is left
as it was exactly if a value has been kept before or there is no list. -/
theorem refused_iff_colon (home : Path) (env : Environment) :
    ((∃ e, (expose home env).1 = .error e) ↔ ':' ∈ home.chars) ∧
      ∀ e, (expose home env).1 = .error e →
        e = .io .separatorInEntry ∧
        (∀ key, key ≠ keptVariable → (expose home env).2.get? key = env.get? key) ∧
        (expose home env).2.get? keptVariable =
          (env.get? keptVariable).or (env.get? pathVariable) ∧
        ((∀ key, (expose home env).2.get? key = env.get? key) ↔
          env.get? keptVariable ≠ none ∨ env.get? pathVariable = none) := by
  refine ⟨expose_fails_iff home env, fun e he => ?_⟩
  have hexpose := expose_of_colon ((expose_fails_iff home env).mp ⟨e, he⟩) env
  rw [hexpose] at he ⊢
  cases he
  exact ⟨rfl, fun key hkey => get?_keepFirst_of_ne env hkey, get?_keepFirst_kept env,
    keepFirst_idle_iff⟩

/-- A home that is refused while a value is kept, and then nothing changes. -/
theorem refused_iff_colon_kept :
    let env : Environment := ⟨[(pathVariable, "/opt"), (keptVariable, "/usr/lib")]⟩
    (∃ e, (expose ⟨"/a:b"⟩ env).1 = .error e) ∧
      ∀ key, (expose ⟨"/a:b"⟩ env).2.get? key = env.get? key := by
  intro env
  obtain ⟨hfails, hleaves⟩ := refused_iff_colon ⟨"/a:b"⟩ env
  obtain ⟨e, he⟩ := hfails.mpr (by decide)
  exact ⟨⟨e, he⟩, (hleaves e he).2.2.2.mpr (.inl (by decide))⟩

/-- **A refusal can change the environment**: it sets the variable that keeps the value, although
the list has not been changed. -/
theorem refusal_keeps_value :
    let env : Environment := ⟨[(pathVariable, "/usr/lib")]⟩
    (expose ⟨"/a:b"⟩ env).1 = .error (.io .separatorInEntry) ∧
      env.get? keptVariable = none ∧
      (expose ⟨"/a:b"⟩ env).2.get? keptVariable = some "/usr/lib" ∧
      ¬∀ (env : Environment) (home : Path) (e : LaunchError),
        (expose home env).1 = .error e → ∀ key, (expose home env).2.get? key = env.get? key := by
  intro env
  have hexpose : expose ⟨"/a:b"⟩ env = (.error (.io .separatorInEntry), keepFirst env) :=
    expose_of_colon (by decide) env
  have hkept : (expose ⟨"/a:b"⟩ env).2.get? keptVariable = some "/usr/lib" := by
    rw [hexpose, get?_keepFirst_kept]
    rfl
  refine ⟨congrArg Prod.fst hexpose, rfl, hkept, fun hall => ?_⟩
  have hsame := hall env ⟨"/a:b"⟩ _ (congrArg Prod.fst hexpose) keptVariable
  rw [hkept] at hsame
  cases hsame

end Stowage.LibraryPath
