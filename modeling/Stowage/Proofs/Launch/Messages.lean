import Stowage.Launch.Native
import Stowage.Proofs.Path.Steps

/-!
# Messages between processes

A process reads its handshake from the environment that it is started in.  This module
says what it reads there: the directory or the mark that the process before it has set
(`fromEnvironment_forChild`, `fromEnvironment_forRestart`), what is left when messages are
cleared (`clear_setAll_forChild`), and what making a home visible changes
(`get?_expose`, `containsHome_expose`).
-/

namespace Stowage

namespace Environment

/-- Where a variable is not set, there is nothing to unset. -/
theorem unset_eq_self {env : Environment} {key : String} (h : env.get? key = none) :
    env.unset key = env := by
  have hnone : env.entries.lookup key = none := h
  have hall : env.entries.filter (·.1 != key) = env.entries :=
    List.filter_eq_self.mpr fun e he => by
      simpa [bne_comm] using List.lookup_eq_none_iff.mp hnone e he
  rw [unset, hall]

theorem unset_set_self (env : Environment) (key value : String) :
    (env.set key value).unset key = env.unset key := by
  simp [unset, set]

end Environment

namespace Handshake

variable {env env' : Environment} {key : String}

/-- A handshake is read from two variables. -/
theorem fromEnvironment_congr
    (hdir : env'.get? extractDirVariable = env.get? extractDirVariable)
    (hmark : env'.get? restartedVariable = env.get? restartedVariable) :
    fromEnvironment env' = fromEnvironment env := by
  have hread (key : String) (hkey : '=' ∉ key.toList) (h : env'.get? key = env.get? key) :
      env'.read? key = env.read? key := by
    rw [Environment.read?_eq_get? _ hkey, Environment.read?_eq_get? _ hkey, h]
  have hd := hread extractDirVariable (by decide) hdir
  have hr := hread restartedVariable (by decide) hmark
  simp only [fromEnvironment, Environment.path?, Environment.optional, Environment.firstSet,
    List.findSome?_cons, List.findSome?_nil, hd, hr]

/-- A child that is told of a directory reads its name. -/
theorem fromEnvironment_forChild (env : Environment) {dir : Path} (hdir : dir.text ≠ "") :
    (fromEnvironment (env.setAll (forChild dir).pairs)).extractDir = some dir := by
  have hget : (env.setAll (forChild dir).pairs).get? extractDirVariable = some dir.text :=
    Environment.get?_set_self env _ _
  rw [fromEnvironment, Environment.path?, Environment.read?_eq_get? _ (by decide), hget]
  simp [hdir]

/-- A process that has replaced itself reads that it has, and nothing else has changed. -/
theorem fromEnvironment_forRestart (env : Environment) :
    fromEnvironment (env.setAll forRestart.pairs) =
      ⟨(fromEnvironment env).extractDir, true⟩ := by
  have hmark : (env.setAll forRestart.pairs).get? restartedVariable = some "1" :=
    Environment.get?_set_self env _ _
  have hdir : (env.setAll forRestart.pairs).get? extractDirVariable =
      env.get? extractDirVariable := Environment.get?_set_of_ne env _ (by decide)
  have hset : (env.setAll forRestart.pairs).read? restartedVariable = some "1" := by
    rw [Environment.read?_eq_get? _ (by decide), hmark]
  have hkept : (env.setAll forRestart.pairs).read? extractDirVariable =
      env.read? extractDirVariable := by
    rw [Environment.read?_eq_get? _ (by decide), Environment.read?_eq_get? _ (by decide), hdir]
  have htrim : Text.trim "1" ≠ "" := by decide
  simp [fromEnvironment, Environment.path?, Environment.optional, Environment.firstSet, hset,
    hkept, htrim]

/-! ### Clearing -/

@[simp] theorem get?_clear (env : Environment) {key : String} (hdir : key ≠ extractDirVariable)
    (hmark : key ≠ restartedVariable) : (clear env).get? key = env.get? key := by
  rw [clear, Environment.get?_unset_of_ne _ hmark, Environment.get?_unset_of_ne _ hdir]

@[simp] theorem get?_clear_extractDir (env : Environment) :
    (clear env).get? extractDirVariable = .none := by
  rw [clear, Environment.get?_unset_of_ne _ (by decide), Environment.get?_unset_self]

@[simp] theorem get?_clear_restarted (env : Environment) :
    (clear env).get? restartedVariable = .none :=
  Environment.get?_unset_self _ _

/-- Where there is no message, there is nothing to clear. -/
theorem clear_eq_self {env : Environment} (hdir : env.get? extractDirVariable = .none)
    (hmark : env.get? restartedVariable = .none) : clear env = env := by
  rw [clear, Environment.unset_eq_self hdir, Environment.unset_eq_self hmark]

theorem clear_clear (env : Environment) : clear (clear env) = clear env :=
  clear_eq_self (get?_clear_extractDir env) (get?_clear_restarted env)

/-- Of a message to a child, nothing is left in an environment that is cleared. -/
theorem clear_setAll_forChild (env : Environment) (dir : Path) :
    clear (env.setAll (forChild dir).pairs) = clear env := by
  show ((env.set extractDirVariable dir.text).unset extractDirVariable).unset _ = _
  rw [Environment.unset_set_self]
  rfl

/-- Where nothing else is said, a child reads its message and no other. -/
theorem fromEnvironment_clear_forChild (env : Environment) {dir : Path} (hdir : dir.text ≠ "") :
    fromEnvironment ((clear env).setAll (forChild dir).pairs) = forChild dir := by
  have hmark : ((clear env).setAll (forChild dir).pairs).get? restartedVariable = .none := by
    show ((clear env).set extractDirVariable dir.text).get? restartedVariable = _
    rw [Environment.get?_set_of_ne _ _ (by decide), get?_clear_restarted]
  have hrestarted :
      (fromEnvironment ((clear env).setAll (forChild dir).pairs)).restarted = false := by
    simp [fromEnvironment, Environment.optional, Environment.firstSet,
      Environment.read?_eq_get? _ (show '=' ∉ restartedVariable.toList by decide), hmark]
  have hchild := fromEnvironment_forChild (clear env) hdir
  generalize fromEnvironment ((clear env).setAll (forChild dir).pairs) =
    message at hrestarted hchild
  cases message
  cases hrestarted
  cases hchild
  rfl

end Handshake

namespace LibraryPath

/-- Keeping the present value changes one variable at most. -/
theorem get?_keepFirst_of_ne (env : Environment) {key : String} (hkept : key ≠ keptVariable) :
    (keepFirst env).get? key = env.get? key := by
  rw [keepFirst]
  split
  · exact Environment.get?_set_of_ne env _ hkept
  · rfl

/-- **All that a call can do**: nothing, where the home is visible already; set the new list; or
stop short, once the present value has been kept. -/
theorem expose_cases (home : Path) (env : Environment) :
    (containsHome home (env.get? pathVariable) = true ∧ expose home env = (.ok false, env)) ∨
      (∃ value, withHome home (env.get? pathVariable) = .ok value ∧
        expose home env = (.ok true, (keepFirst env).set pathVariable value)) ∨
      (∀ changed, (expose home env).1 ≠ .ok changed) ∧ (expose home env).2 = keepFirst env := by
  rw [expose]
  split
  · exact .inl ⟨‹_›, rfl⟩
  · refine .inr ?_
    dsimp only
    split
    · rename_i value hvalue
      split
      · exact .inr ⟨nofun, rfl⟩
      · exact .inl ⟨value, hvalue, rfl⟩
    · exact .inr ⟨nofun, rfl⟩

/-- Making a home visible changes two variables at most. -/
theorem get?_expose (home : Path) (env : Environment) {key : String} (hpath : key ≠ pathVariable)
    (hkept : key ≠ keptVariable) : (expose home env).2.get? key = env.get? key := by
  rcases expose_cases home env with ⟨-, hsame⟩ | ⟨value, -, hset⟩ | ⟨-, hstops⟩
  · rw [hsame]
  · rw [hset, Environment.get?_set_of_ne _ _ hpath, get?_keepFirst_of_ne env hkept]
  · rw [hstops, get?_keepFirst_of_ne env hkept]

/-- Making a home visible leaves the handshake as it is. -/
theorem fromEnvironment_expose (home : Path) (env : Environment) :
    Handshake.fromEnvironment (expose home env).2 = Handshake.fromEnvironment env :=
  Handshake.fromEnvironment_congr (get?_expose home env (by decide) (by decide))
    (get?_expose home env (by decide) (by decide))

/-- Making a home visible sets no message. -/
theorem clear_expose (home : Path) (env : Environment) :
    Handshake.clear (expose home (Handshake.clear env)).2 =
      (expose home (Handshake.clear env)).2 := by
  refine Handshake.clear_eq_self ?_ ?_
  · rw [get?_expose home _ (by decide) (by decide), Handshake.get?_clear_extractDir]
  · rw [get?_expose home _ (by decide) (by decide), Handshake.get?_clear_restarted]

/-- A list of paths has these entries. -/
theorem entries_join {paths : List Path} {value : String} (hne : paths ≠ [])
    (h : join paths = .ok value) : entries value = paths := by
  rw [join] at h
  split at h
  · cases h
  · rename_i hcolon
    cases h
    have hfree : ∀ cs ∈ paths.map Path.chars, ':' ∉ cs := by
      intro cs hcs hin
      obtain ⟨p, hp, rfl⟩ := List.mem_map.mp hcs
      exact hcolon (List.any_eq_true.mpr ⟨p, hp, by simpa using hin⟩)
    rw [entries, String.toList_ofList, List.splitOn_intercalate ':' hfree (by simpa using hne)]
    simp [Function.comp_def]

/-- **A home that has been made visible is visible.** -/
theorem containsHome_expose {home : Path} {env : Environment} {changed : Bool}
    (h : (expose home env).1 = .ok changed) :
    containsHome home ((expose home env).2.get? pathVariable) = true := by
  rcases expose_cases home env with ⟨hvisible, hsame⟩ | ⟨value, hvalue, hset⟩ | ⟨hstops, -⟩
  · rwa [hsame]
  · rw [hset, Environment.get?_set_self, containsHome,
      entries_join (List.cons_ne_nil _ _) hvalue]
    simp [Path.same]
  · exact absurd h (hstops changed)

end LibraryPath

namespace Native

/-! ### Finding the program -/

variable {program path : Path} {w : World Console}

theorem currentExecutable_of_ok (h : w.files.canonicalize program = .ok path)
    (argv0 : Option String) : (currentExecutable program argv0).apply w = (.ok path, w) := by
  show currentExecutable program argv0 w = _
  simp only [currentExecutable, h]

theorem currentExecutable_some {e : FileError} (h : w.files.canonicalize program = .error e)
    (name : String) : (currentExecutable program (some name)).apply w =
      (Executable.ofInvocation w.files w.env name, w) := by
  show currentExecutable program (some name) w = _
  simp only [currentExecutable, h]

theorem currentExecutable_none {e : FileError} (h : w.files.canonicalize program = .error e) :
    (currentExecutable program .none).apply w = (.error (.executable (.untold e)), w) := by
  show currentExecutable program .none w = _
  simp only [currentExecutable, h]

/-! ### Making a home visible -/

/-- Where a home has been made visible, the environment is all that has changed. -/
theorem exposeHome_eq_ok {home : Path} {changed : Bool} {w w' : World Console}
    (h : (exposeHome home).apply w = (.ok changed, w')) :
    (LibraryPath.expose home w.env).1 = .ok changed ∧
      w' = { w with env := (LibraryPath.expose home w.env).2 } := by
  change exposeHome home w = _ at h
  rcases hexpose : LibraryPath.expose home w.env with ⟨_ | _ | _, env⟩ <;>
    simp only [exposeHome, hexpose] at h <;> cases h
  exact ⟨rfl, rfl⟩

/-- However a call ends, it leaves this environment. -/
theorem env_exposeHome (home : Path) (w : World Console) :
    ((exposeHome home).apply w).2.env = (LibraryPath.expose home w.env).2 := by
  show (exposeHome home w).2.env = _
  simp only [exposeHome]
  split <;> rfl

end Native

end Stowage
