import Stowage.Environment.Basic

/-!
# Which variable of a chain decides

A reader with fallbacks asks for several variables, one after the other.  One might
expect that a value that says nothing, because it is empty or blank, is passed over like
a variable that is not set (`firstThat`).  It is not: the first variable that is set
decides (`Decides`), and when its value says nothing, so does the reader.

`first_set_decides` says this of the two readers that return a text, and when it makes a
difference: exactly when the value that decides says nothing and a later one would have
said something.
-/

namespace Stowage.Environment

variable {env : Environment} {primary : String} {aliases chain : List String} {s : String}

/-- The values of the variables of a chain that are set, in order. -/
def valuesAmong (env : Environment) (chain : List String) : List String :=
  chain.filterMap env.read?

/-- The first value in a chain that says something, values before it being passed over. -/
def firstThat (env : Environment) (tells : String → Bool) (chain : List String) : Option String :=
  (env.valuesAmong chain).find? tells

/-- Whether a value is more than blanks. -/
def isVisible (value : String) : Bool := Text.trim value ≠ ""

/-- Whether a value is not empty. -/
def isFilled (value : String) : Bool := value ≠ ""

/-- **A value decides a chain**: its variable is set to it, and none before is set. -/
def Decides (env : Environment) (chain : List String) (value : String) : Prop :=
  ∃ before name after, chain = before ++ name :: after ∧ (∀ n ∈ before, env.read? n = none) ∧
    env.read? name = some value

/-- A value that says nothing hides none that does: either the value that decides says
something, or none of the chain does. -/
def HidesNothing (env : Environment) (tells : String → Bool) (chain : List String) : Prop :=
  ∀ s, env.Decides chain s → tells s = false → ∀ t ∈ env.valuesAmong chain, tells t = false

theorem firstSet_eq_some : env.firstSet primary aliases = some s ↔
    env.Decides (primary :: aliases) s := by
  rw [firstSet, List.findSome?_eq_some_iff]
  constructor
  · rintro ⟨before, name, after, hchain, hset, hbefore⟩
    exact ⟨before, name, after, hchain, hbefore, hset⟩
  · rintro ⟨before, name, after, hchain, hbefore, hset⟩
    exact ⟨before, name, after, hchain, hset, hbefore⟩

theorem firstSet_eq_head? (env : Environment) (primary : String) (aliases : List String) :
    env.firstSet primary aliases = (env.valuesAmong (primary :: aliases)).head? := by
  rw [firstSet, valuesAmong, List.head?_filterMap]

/-- The first of some values is the first one that says something, unless it hides one. -/
theorem filter_head?_eq_find?_iff {α : Type} {tells : α → Bool} {values : List α} :
    values.head?.filter tells = values.find? tells ↔
      ∀ s, values.head? = some s → tells s = false → ∀ t ∈ values, tells t = false := by
  cases values with
  | nil => simp
  | cons v values =>
    cases hv : tells v with
    | true => simp [hv]
    | false => simp [hv, Option.filter_some, eq_comm (a := (none : Option α))]

theorem filter_firstSet_eq_iff {tells : String → Bool} :
    (env.firstSet primary aliases).filter tells = env.firstThat tells (primary :: aliases) ↔
      env.HidesNothing tells (primary :: aliases) := by
  rw [firstSet_eq_head?, firstThat, filter_head?_eq_find?_iff, HidesNothing]
  simp only [← firstSet_eq_head?, firstSet_eq_some]

/-- A value that decides is the first that says something, or says nothing. -/
theorem filter_firstSet_cases (env : Environment) (tells : String → Bool) (primary : String)
    (aliases : List String) :
    (env.firstSet primary aliases).filter tells = env.firstThat tells (primary :: aliases) ∨
      (env.firstSet primary aliases).filter tells = none := by
  rw [firstSet_eq_head?, firstThat]
  cases env.valuesAmong (primary :: aliases) with
  | nil => exact .inl rfl
  | cons v values => cases hv : tells v <;> simp [hv, Option.filter_some]

theorem optional_eq (env : Environment) (primary : String) (aliases : List String) :
    env.optional primary aliases =
      ((env.firstSet primary aliases).filter isVisible).map Text.trim := by
  rw [optional]
  cases env.firstSet primary aliases with
  | none => rfl
  | some s => by_cases hs : Text.trim s = "" <;> simp [hs, isVisible, Option.filter_some]

theorem valueOr_eq (env : Environment) (primary : String) (aliases : List String)
    (default : String) : env.valueOr primary aliases default =
      ((env.firstSet primary aliases).filter isFilled).getD default := by
  rw [valueOr]
  cases env.firstSet primary aliases with
  | none => rfl
  | some s => by_cases hs : s = "" <;> simp [hs, isFilled, Option.filter_some]

/-- An optional value is the first visible one exactly if it hides none. -/
theorem optional_eq_firstThat_iff :
    env.optional primary aliases =
        (env.firstThat isVisible (primary :: aliases)).map Text.trim ↔
      env.HidesNothing isVisible (primary :: aliases) := by
  rw [optional_eq, ← filter_firstSet_eq_iff]
  constructor
  · intro h
    rcases filter_firstSet_cases env isVisible primary aliases with he | hnone
    · exact he
    · rw [hnone] at h ⊢
      exact (Option.map_eq_none_iff.mp h.symm).symm
  · exact congrArg _

/-- A value with a default is the first that is not empty exactly if it hides none. -/
theorem valueOr_eq_firstThat_iff :
    (∀ default, env.valueOr primary aliases default =
        (env.firstThat isFilled (primary :: aliases)).getD default) ↔
      env.HidesNothing isFilled (primary :: aliases) := by
  simp only [valueOr_eq]
  rw [← filter_firstSet_eq_iff]
  constructor
  · intro h
    rcases filter_firstSet_cases env isFilled primary aliases with he | hnone
    · exact he
    · rw [hnone] at h ⊢
      cases hfirst : env.firstThat isFilled (primary :: aliases) with
      | none => rfl
      | some v =>
        -- no value equals every default
        rw [hfirst] at h
        have hempty : "" = v := h ""
        have hother : "other" = v := h "other"
        exact absurd (hempty.trans hother.symm) (by decide)
  · exact fun h default => congrArg (·.getD default) h

/-- **The first variable that is set decides a chain.**  An optional value is what decides,
trimmed, and there is none if nothing decides or only blanks do.  A value with a default is what
decides, and the default if nothing does or what decides is empty.  So a reader finds the first
value that says something exactly if the value that decides does not hide it. -/
theorem first_set_decides (env : Environment) (primary : String) (aliases : List String) :
    (∀ v, env.optional primary aliases = some v ↔
      ∃ s, env.Decides (primary :: aliases) s ∧ isVisible s = true ∧ v = Text.trim s) ∧
    (∀ default v, env.valueOr primary aliases default = v ↔
      (∃ s, env.Decides (primary :: aliases) s ∧ isFilled s = true ∧ v = s) ∨
      (∀ s, env.Decides (primary :: aliases) s → isFilled s = false) ∧ v = default) ∧
    (env.optional primary aliases =
        (env.firstThat isVisible (primary :: aliases)).map Text.trim ↔
      env.HidesNothing isVisible (primary :: aliases)) ∧
    ((∀ default, env.valueOr primary aliases default =
        (env.firstThat isFilled (primary :: aliases)).getD default) ↔
      env.HidesNothing isFilled (primary :: aliases)) := by
  refine ⟨fun v => ?_, fun default v => ?_, optional_eq_firstThat_iff, valueOr_eq_firstThat_iff⟩
  · rw [optional_eq]
    simp only [Option.map_eq_some_iff, Option.filter_eq_some_iff, firstSet_eq_some, and_assoc,
      eq_comm (a := v)]
  · rw [valueOr_eq]
    simp only [← firstSet_eq_some]
    cases env.firstSet primary aliases with
    | none => simp [eq_comm (a := v)]
    | some s =>
      simp only [Option.some.injEq, exists_eq_left', forall_eq', Option.filter_some]
      cases hs : isFilled s with
      | true =>
        simp only [if_true, Option.getD_some, true_and, reduceCtorEq, false_and, or_false]
        exact eq_comm
      | false =>
        simp only [Bool.false_eq_true, if_false, Option.getD_none, false_and, true_and, false_or]
        exact eq_comm

/-- **A value that says nothing hides an alias that does**, so that neither reader gives the first
value that says something. -/
theorem empty_value_hides_alias :
    let env : Environment := ⟨[("A", ""), ("B", "b")]⟩
    env.optional "A" ["B"] = none ∧ env.valueOr "A" ["B"] "default" = "default" ∧
      env.firstThat isVisible ["A", "B"] = some "b" ∧
      env.firstThat isFilled ["A", "B"] = some "b" ∧
      (¬∀ (env : Environment) (primary : String) (aliases : List String),
        env.optional primary aliases =
          (env.firstThat isVisible (primary :: aliases)).map Text.trim) ∧
      ¬∀ (env : Environment) (primary : String) (aliases : List String) (default : String),
        env.valueOr primary aliases default =
          (env.firstThat isFilled (primary :: aliases)).getD default := by
  intro env
  have hoptional : env.optional "A" ["B"] = none := by decide +kernel
  have hvalue : env.valueOr "A" ["B"] "default" = "default" := by decide +kernel
  have hvisible : env.firstThat isVisible ["A", "B"] = some "b" := by decide +kernel
  have hfilled : env.firstThat isFilled ["A", "B"] = some "b" := by decide +kernel
  refine ⟨hoptional, hvalue, hvisible, hfilled, fun hall => ?_, fun hall => ?_⟩
  · have hsame := hall env "A" ["B"]
    rw [hoptional, hvisible] at hsame
    cases hsame
  · have hsame := hall env "A" ["B"] "default"
    rw [hvalue, hfilled] at hsame
    exact absurd hsame (by decide)

end Stowage.Environment
