import Stowage.Path.Basic
import Stowage.Text.Blank
/-!
# Environment variables

An environment gives each variable at most one value. Besides looking one variable up, a program
asks for the first of several names that is set; the wording of "set" differs between the readers
and is part of each one's description.
-/

namespace Stowage

/-- The environment of a process: names with their values, the first of two entries counting. -/
structure Environment where
  entries : List (String × String)
  deriving Repr, Inhabited

namespace Environment

/-- The environment in which no variable is set. -/
def empty : Environment := ⟨[]⟩

/-- The value of a variable, if it is set. -/
def get? (env : Environment) (key : String) : Option String :=
  env.entries.lookup key

/-- The environment in which a variable has the given value. -/
def set (env : Environment) (key value : String) : Environment :=
  ⟨(key, value) :: env.entries.filter (·.1 != key)⟩

/-- The environment in which a variable is not set. -/
def unset (env : Environment) (key : String) : Environment :=
  ⟨env.entries.filter (·.1 != key)⟩

/-- The environment in which each of the pairs has been set in turn. -/
def setAll (env : Environment) (pairs : List (String × String)) : Environment :=
  pairs.foldl (fun e (key, value) => e.set key value) env

theorem lookup_filter_ne {key other : String} (entries : List (String × String))
    (h : other ≠ key) :
    (entries.filter (·.1 != key)).lookup other = entries.lookup other := by
  induction entries with
  | nil => rfl
  | cons e es ih =>
    obtain ⟨k, v⟩ := e
    by_cases hk : k = key
    · have hne : (other == k) = false := by simp [hk, h]
      simp [List.lookup_cons, hk, ih, hk ▸ hne]
    · by_cases ho : other = k
      · simp [ho, hk]
      · simp [List.lookup_cons, hk, ih]

theorem lookup_filter_self (key : String) (entries : List (String × String)) :
    (entries.filter (·.1 != key)).lookup key = none := by
  induction entries with
  | nil => rfl
  | cons e es ih =>
    obtain ⟨k, v⟩ := e
    by_cases hk : k = key
    · simp [hk, ih]
    · have hne : (key == k) = false := by simp [Ne.symm hk]
      simp [List.lookup_cons, hk, hne, ih]

@[simp] theorem get?_set_self (env : Environment) (key value : String) :
    (env.set key value).get? key = some value := by
  simp [get?, set]

@[simp] theorem get?_set_of_ne {key other : String} (env : Environment) (value : String)
    (h : other ≠ key) : (env.set key value).get? other = env.get? other := by
  have hne : (other == key) = false := by simp [h]
  simp [get?, set, List.lookup_cons, hne, lookup_filter_ne _ h]

@[simp] theorem get?_unset_self (env : Environment) (key : String) :
    (env.unset key).get? key = none := by
  simp [get?, unset, lookup_filter_self]

@[simp] theorem get?_unset_of_ne {key other : String} (env : Environment) (h : other ≠ key) :
    (env.unset key).get? other = env.get? other := by
  simp [get?, unset, lookup_filter_ne _ h]

/-! ### Readers with fallbacks -/

/-- The value that is found under a key. An environment is passed on as texts `name=value`, and the
key is looked for as what stands before some `=` of a text. No name holds that character, but a key
may: then it takes in the first part of a value, and with `A` set to `B=c` the key `A=B` finds
`c`. -/
def read? (env : Environment) (key : String) : Option String :=
  match Text.splitOnce '=' key with
  | none => env.get? key
  | some (name, lead) => (env.get? name).bind (Text.afterLead? (lead ++ "="))

/-- A key that could be a name finds the variable of that name. -/
theorem read?_eq_get? (env : Environment) {key : String} (h : '=' ∉ key.toList) :
    env.read? key = env.get? key := by
  simp [read?, Text.splitOnce, Text.splitOnceChars_eq_none.mpr h]

/-- The value of the first variable among `primary` and the aliases that is set at all, be it to
the empty text. -/
def firstSet (env : Environment) (primary : String) (aliases : List String) : Option String :=
  (primary :: aliases).findSome? env.read?

/-- The first value that is set, or the default if none is or the value is empty. -/
def valueOr (env : Environment) (primary : String) (aliases : List String) (default : String) :
    String :=
  match env.firstSet primary aliases with
  | some s => if s = "" then default else s
  | none => default

/-- The first value that is set, without the blanks around it; nothing if only blanks remain. -/
def optional (env : Environment) (primary : String) (aliases : List String) : Option String :=
  match env.firstSet primary aliases with
  | some s => if Text.trim s = "" then none else some (Text.trim s)
  | none => none

/-- The texts that stand for false, in lower case. -/
def falseWords : List String := ["0", "false", "no", "off"]

/-- Whether a value stands for false: it is one of the false words, in any case and between any
blanks. No character outside ASCII has one of their letters as its lower case. -/
def isFalseWord (s : String) : Bool :=
  falseWords.contains (String.ofList ((Text.trim s).toList.map Char.toLower))

/-- A switch. It is off when set to a false word and on when set to anything else, be it empty. -/
def flag (env : Environment) (primary : String) (aliases : List String) (default : Bool) : Bool :=
  match env.firstSet primary aliases with
  | some s => !isFalseWord s
  | none => default

/-- A path, taken as it stands; an empty value counts as unset. -/
def path? (env : Environment) (key : String) : Option Path :=
  match env.read? key with
  | some s => if s = "" then none else some ⟨s⟩
  | none => none

/-! ### Directories that the environment names -/

/-- The home directory that the user database names for the superuser. -/
def superuserHome : Path := ⟨"/root"⟩

/-- The home directory of the user: the value of `HOME`, or what the user database says when the
variable is unset or empty. -/
def home (env : Environment) : Path :=
  (env.path? "HOME").getD superuserHome

/-- The directory for temporary files. A variable set to the empty text names the empty path. -/
def tempDir (env : Environment) : Path :=
  match env.get? "TMPDIR" with
  | some s => ⟨s⟩
  | none => ⟨"/tmp"⟩

/-- A path whose leading `~` stands for the home directory. Only a `~` alone or before a slash or
a backslash is expanded. -/
def expandHome (env : Environment) (text : String) : Path :=
  if text = "~" then env.home
  else match (Text.afterLead? "~/" text).orElse fun _ => Text.afterLead? "~\\" text with
    | some rest => env.home.join ⟨rest⟩
    | none => ⟨text⟩

end Environment

end Stowage
