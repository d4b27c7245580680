import Stowage.Proofs.Launch.Chain

/-!
# Launches that have been told of a directory

A launch that has been told of an extraction directory opens its container, forgets the
message, makes the directory visible and runs the entries (`toldLaunch`).  It does not
hand over to another process, so it does not matter how it would do that.

Nor does it matter what else it has been told: two processes that differ in messages only
make the same calls to a runtime, print the same and end in the same way (`told_congr`).
-/

namespace Stowage

open Result

variable {τ : Type}

/-! ## Launches that have been told of a directory -/

namespace Launch

/-- What comes of a launch, up to its outcome: the result, what is known then, the calls to a
runtime, and the world that is left. -/
structure Told (τ : Type) where
  result : Except LaunchError LaunchOutcome
  state : LaunchState
  calls : List (LaunchStep τ)
  world : World τ

/-- What is known to a launch that has been told of a directory. -/
def toldState (s : LaunchState) (dir : Path) : LaunchState :=
  { s with session := { s.session with isChild := true, home := dir } }

/-- **A launch that has been told of a directory**, up to its outcome.  It opens its
container, forgets the message, makes the directory visible and runs the entries. -/
def toldLaunch [Zlib.Inflater] (env : Surroundings τ) (dir : Path) (s : LaunchState) (w : World τ) :
    Told τ :=
  match Stateful.apply (openArchive env) s w with
  | ((.error e, s₁), w₁) => ⟨.error e, s₁, [], w₁⟩
  | ((.ok a, s₁), w₁) =>
    match (env.exposeHome dir).apply (env.clearHandshake.apply w₁).2 with
    | (.error e, w₂) => ⟨.error e, toldState s₁ dir, [], w₂⟩
    | (.ok _, w₂) =>
      match Stateful.apply (runEntries env.recorded a) (toldState s₁ dir) (w₂.recorded []) with
      | ((r, s'), w') => ⟨r, s', runtimeCalls w'.rest.steps, w'.plain⟩

section
variable {env : Surroundings τ} {setup : LaunchSetup} {dir : Path} {s s' : LaunchState}
  {w w' : World τ} {r : Except LaunchError LaunchOutcome} {steps : List (LaunchStep τ)}

theorem Opening.runtimeCalls {result : Except LaunchError Archive}
    (h : Opening env s w result s' steps w') : runtimeCalls steps = [] := by
  cases h <;> rfl

variable [Zlib.Inflater]

/-- **The course of a launch that has been told of a directory** is this one, even if it has
also been told that it has replaced itself: it only clears the messages once more. -/
theorem Course.toldLaunch_eq (h : Course env setup s w r s' steps w')
    (hdir : setup.handshake.extractDir = some dir)
    (hclear : ∀ w answer w₂, (env.exposeHome dir).apply (env.clearHandshake.apply w).2 =
      (answer, w₂) → (env.clearHandshake.apply w₂).2 = w₂) :
    toldLaunch env dir s w = ⟨r, s', runtimeCalls steps, w'⟩ := by
  cases h with
  | unopened hopen => rw [toldLaunch, hopen.apply, hopen.runtimeCalls]
  | extracts _ hfirst | runs _ hfirst =>
    rw [hfirst] at hdir
    cases hdir
  | @runsExtracted a dir' s₁ _ opening rest w₁ w₂ _ _ hopen hextracted hcleared hruns =>
    obtain rfl : dir' = dir := Option.some.inj (hextracted.symm.trans hdir)
    subst hcleared
    have hcalls : runtimeCalls (opening ++ ⟨.clearHandshake, w₁, (env.clearHandshake.apply w₁).2⟩ ::
        rest) = runtimeCalls rest := by
      rw [runtimeCalls, List.filter_append, ← runtimeCalls, hopen.runtimeCalls]
      rfl
    rw [toldLaunch, hopen.apply, hcalls]
    cases hruns with
    | hidden hexpose =>
      dsimp only at hexpose ⊢
      rw [hexpose]
      rfl
    | restarted _ _ _ hown => cases hown
    | ran hexpose _ _ _ hrecord =>
      dsimp only at hexpose ⊢
      rw [hexpose]
      dsimp only
      rw [toldState, hrecord]
      rfl
    | ranAgain hexpose _ hsame _ hrecord =>
      dsimp only at hexpose ⊢
      rw [hclear _ _ _ hexpose] at hsame
      rw [hexpose]
      dsimp only
      rw [toldState, ← hsame, hrecord]
      rfl

/-- A runtime is started with what is known when the entries are run. -/
theorem Running.settings_eq {a : Archive} (h : Running env a s w r s' steps w')
    {step : LaunchStep τ} (hstep : step ∈ steps) {settings : StartSettings}
    {answer : Except RuntimeError StartOutcome} (hcall : step.call = .start settings answer) :
    settings = settingsOf s := by
  rcases h.shape with ⟨e, w₁, -, rfl⟩ | ⟨-, w₁, w₂, answer', fed, -, rfl, hfed, -⟩
  · rw [List.mem_singleton.mp hstep] at hcall
    cases hcall
  · rcases List.mem_append.mp hstep with hin | hin
    · obtain rfl | rfl : step = ⟨_, _, _⟩ ∨ step = ⟨_, _, _⟩ := by simpa [begun] using hin
      · cases hcall
      · cases hcall
        rfl
    · have hfeeds := hfed step hin
      rw [hcall] at hfeeds
      cases hfeeds

/-- A launch that has been told of a directory starts its runtime with that as its home. -/
theorem toldLaunch_settings {step : LaunchStep τ} (hstep : step ∈ (toldLaunch env dir s w).calls)
    {settings : StartSettings} {answer : Except RuntimeError StartOutcome}
    (hcall : step.call = .start settings answer) : ∃ a s₁ opening w₁,
      Opening env s w (.ok a) s₁ opening w₁ ∧ settings = settingsOf (toldState s₁ dir) := by
  obtain ⟨opening, -, hopening⟩ := openArchive_records env s w
  rw [toldLaunch] at hstep
  rcases hopen : Stateful.apply (openArchive env) s w with ⟨⟨e | a, s₁⟩, w₁⟩
  all_goals rw [hopen] at hstep hopening
  · cases hstep
  · refine ⟨a, s₁, opening, w₁, hopening, ?_⟩
    dsimp only at hstep
    rcases hexpose : (env.exposeHome dir).apply (env.clearHandshake.apply w₁).2 with
      ⟨e | changed, w₂⟩
    all_goals rw [hexpose] at hstep
    · cases hstep
    · obtain ⟨run, hrecord, hruns⟩ := runEntries_records env a (toldState s₁ dir) w₂
      dsimp only at hstep
      rw [hrecord []] at hstep
      exact hruns.settings_eq (List.mem_filter.mp hstep).1 hcall

end

end Launch

/-! ## Processes that have been told of a directory -/

/-- The program of a name depends on two variables. -/
theorem Executable.ofInvocation_congr {fs : FileSystem} {env env' : Environment} {name : String}
    (hpath : env'.get? "PATH" = env.get? "PATH") (hhome : env'.get? "HOME" = env.get? "HOME") :
    ofInvocation fs env' name = ofInvocation fs env name := by
  have hnamed : '=' ∉ "HOME".toList := by decide
  have hsame : env'.home = env.home := by
    simp only [Environment.home, Environment.path?, Environment.read?_eq_get? _ hnamed, hhome]
  have hdirs : searchDirs env' = searchDirs env := by
    funext value
    simp only [searchDirs]
    congr 1
    funext dir
    simp only [expandEntry, hsame]
  simp only [ofInvocation, search, hpath, hdirs]

namespace Native

open Launch

/-- **Two worlds that differ in messages only**, and in what a process leaves aside when it
starts. -/
structure SameButMessages (w w' : World Console) : Prop where
  files : w'.files = w.files
  output : w'.rest.output = w.rest.output
  messages : w'.rest.messages = w.rest.messages
  env : Handshake.clear w'.env = Handshake.clear w.env

namespace SameButMessages

variable {w w' : World Console} (h : SameButMessages w w')
include h

theorem get? {key : String} (hdir : key ≠ Handshake.extractDirVariable)
    (hmark : key ≠ Handshake.restartedVariable) : w'.env.get? key = w.env.get? key := by
  rw [← Handshake.get?_clear w'.env hdir hmark, h.env, Handshake.get?_clear w.env hdir hmark]

theorem freshWorld_eq : freshWorld w' = { freshWorld w with env := w'.env } := by
  obtain ⟨files', env', ⟨output', messages', bound', simulation'⟩⟩ := w'
  obtain ⟨rfl, rfl, rfl, -⟩ := h
  rfl

/-- In both worlds the same program is found. -/
theorem currentExecutable (program : Path) (argv0 : Option String) :
    ((Native.currentExecutable program argv0).apply (freshWorld w')).1 =
      ((Native.currentExecutable program argv0).apply (freshWorld w)).1 := by
  have hnamed (name : String) : Executable.ofInvocation w.files w'.env name =
      Executable.ofInvocation w.files w.env name :=
    Executable.ofInvocation_congr (h.get? (by decide) (by decide))
      (h.get? (by decide) (by decide))
  cases hcanonical : w.files.canonicalize program with
  | ok path =>
    have hcanonical' : w'.files.canonicalize program = .ok path := by rw [h.files, hcanonical]
    rw [currentExecutable_of_ok (w := freshWorld w') hcanonical',
      currentExecutable_of_ok (w := freshWorld w) hcanonical]
  | error e =>
    have hcanonical' : w'.files.canonicalize program = .error e := by rw [h.files, hcanonical]
    cases argv0 with
    | none =>
      rw [currentExecutable_none (w := freshWorld w') hcanonical',
        currentExecutable_none (w := freshWorld w) hcanonical]
    | some name =>
      rw [currentExecutable_some (w := freshWorld w') hcanonical',
        currentExecutable_some (w := freshWorld w) hcanonical]
      exact (congrArg (Executable.ofInvocation · _ _) h.files).trans (hnamed name)

/-- In both worlds the same container is opened. -/
theorem openArchive (host : Host) (run run' : Runner) (program : Path) (s : LaunchState) :
    Stateful.apply (Launch.openArchive (surroundings host run' program)) s (freshWorld w') =
      ((Stateful.apply (Launch.openArchive (surroundings host run program)) s (freshWorld w)).1,
        { (Stateful.apply (Launch.openArchive (surroundings host run program)) s
          (freshWorld w)).2 with env := w'.env }) := by
  obtain ⟨found, hfound⟩ : ∃ found, found =
      ((Native.currentExecutable program s.session.argv.head?).apply (freshWorld w)).1 := ⟨_, rfl⟩
  have hfind : ((surroundings host run program).currentExecutable s.session.argv.head?).apply
      (freshWorld w) = (found, freshWorld w) := by rw [hfound]; rfl
  have hfind' : ((surroundings host run' program).currentExecutable s.session.argv.head?).apply
      (freshWorld w') = (found, { freshWorld w with env := w'.env }) := by
    rw [hfound, ← h.currentExecutable, ← h.freshWorld_eq]
    rfl
  simp only [Launch.openArchive, Stateful.apply_bind, apply_session, apply_lift, hfind, hfind']
  cases found with
  | error e => rfl
  | ok executable =>
    simp only [mapError_id, apply_setSession, apply_onFiles]
    rcases (Locate.openArchive executable).apply (freshWorld w).files with ⟨e | a, files⟩ <;> rfl

/-- **A launch that has been told of a directory** does the same in both worlds, whatever it
would do to run other programs.  Only if no container is opened, the messages are left. -/
theorem toldLaunch [Zlib.Inflater] (host : Host) (run run' : Runner) (program dir : Path)
    (s : LaunchState) :
    ∃ t env', Launch.toldLaunch (surroundings host run program) dir s (freshWorld w) = t ∧
      Launch.toldLaunch (surroundings host run' program) dir s (freshWorld w') =
        { t with world := { t.world with env := env' } } ∧
      (t.world.env = env' ∨ t.state.hasRuntime = s.hasRuntime) := by
  obtain ⟨opening, -, hopening⟩ :=
    openArchive_records (surroundings host run program) s (freshWorld w)
  have hopen := h.openArchive host run run' program s
  rcases hrun : Stateful.apply (Launch.openArchive (surroundings host run program)) s
    (freshWorld w) with ⟨⟨e | a, s₁⟩, w₁⟩
  all_goals rw [hrun] at hopen hopening
  · refine ⟨_, w'.env, rfl, ?_, .inr ?_⟩
    · simp only [Launch.toldLaunch, hrun, hopen]
    · simp only [Launch.toldLaunch, hrun]
      cases hopening <;> rfl
  · -- with the messages cleared, the two worlds are the same
    have henv : w₁.env = w.env := by
      cases hopening with
      | opened hfind _ =>
        obtain ⟨-, rfl⟩ := Prod.mk.inj hfind
        rfl
    have hcleared : (((surroundings host run' program).clearHandshake).apply
        { w₁ with env := w'.env }).2 = (((surroundings host run program).clearHandshake).apply
          w₁).2 := by
      show ({ w₁ with env := Handshake.clear w'.env } : World Console) =
        { w₁ with env := Handshake.clear w₁.env }
      rw [h.env, henv]
    refine ⟨_, _, rfl, ?_, .inl rfl⟩
    simp only [Launch.toldLaunch, hrun, hopen, hcleared]
    rfl

end SameButMessages

/-- What the user hears is added to what has been said, and nothing else changes. -/
theorem report_congr {result : Except LaunchError LaunchOutcome} {w w' : World Console}
    (h : w'.rest = w.rest) :
    ((report result).apply w').2.rest = ((report result).apply w).2.rest := by
  cases result with
  | ok _ => exact h
  | error e =>
    show (if w'.rest.simulation.ended.isSome then w'.rest else _) =
      (if w.rest.simulation.ended.isSome then w.rest else _)
    rw [h]

namespace LauncherProcess

variable {p q : LauncherProcess} {dir : Path}

variable [Zlib.Inflater]

/-- A process that has been told of a directory makes the launch that such a process makes. -/
theorem toldLaunch_eq (h : p.handshake.extractDir = some dir) {t : Told Console}
    (ht : toldLaunch p.surroundings dir (initial p.argv) (freshWorld p.world) = t) :
    p.result = t.result ∧ p.launched = ((finish p.surroundings t.state).apply t.world).2 ∧
      runtimeCalls p.steps = t.calls ++ finishing p.surroundings t.state t.world := by
  obtain ⟨course, w₁, hcourse, hsteps, hlaunched⟩ := p.exists_course
  have hclear (w : World Console) (answer : Except LaunchError Bool) (w₂ : World Console)
      (hexpose : (p.surroundings.exposeHome dir).apply (p.surroundings.clearHandshake.apply w).2 =
        (answer, w₂)) : (p.surroundings.clearHandshake.apply w₂).2 = w₂ := by
    have henv : w₂.env = (LibraryPath.expose dir (Handshake.clear w.env)).2 :=
      (congrArg (·.2.env) hexpose).symm.trans (env_exposeHome dir _)
    show ({ w₂ with env := Handshake.clear w₂.env } : World Console) = w₂
    rw [henv, LibraryPath.clear_expose, ← henv]
  rw [hcourse.toldLaunch_eq h hclear] at ht
  subst ht
  have hfinish : runtimeCalls (finishing p.surroundings p.lastState w₁) =
      finishing p.surroundings p.lastState w₁ := by
    rw [finishing]
    split <;> rfl
  refine ⟨rfl, hlaunched, ?_⟩
  rw [hsteps, runtimeCalls, List.filter_append, ← runtimeCalls, ← runtimeCalls, hfinish]

/-- **A process that has been told of a directory** makes the same calls to a runtime, prints
and says the same and ends in the same way, however it has been told, whatever else it has
been told, and whatever it would do to run other programs. -/
theorem told_congr (hhost : q.host = p.host) (hprogram : q.program = p.program)
    (hargv : q.argv = p.argv) (h : SameButMessages p.world q.world)
    (hdir : p.handshake.extractDir = some dir) (hdir' : q.handshake.extractDir = some dir) :
    runtimeCalls q.steps = runtimeCalls p.steps ∧ q.ended = p.ended ∧
      q.left.rest.output = p.left.rest.output ∧ q.left.rest.messages = p.left.rest.messages := by
  obtain ⟨host, run, program, argv, world⟩ := q
  obtain rfl : host = p.host := hhost
  obtain rfl : program = p.program := hprogram
  obtain rfl : argv = p.argv := hargv
  obtain ⟨t, env', ht, ht', hsame⟩ :=
    h.toldLaunch p.host p.run run p.program dir (initial p.argv)
  obtain ⟨hresult, hlaunched, hcalls⟩ := toldLaunch_eq hdir ht
  obtain ⟨hresult', hlaunched', hcalls'⟩ := toldLaunch_eq hdir' ht'
  have hagree : (LauncherProcess.launched ⟨p.host, run, p.program, p.argv, world⟩).rest =
        p.launched.rest ∧
      runtimeCalls (LauncherProcess.steps ⟨p.host, run, p.program, p.argv, world⟩) =
        runtimeCalls p.steps := by
    rw [hlaunched, hlaunched', hcalls, hcalls']
    rcases hsame with henv | hunmade
    · subst henv
      exact ⟨rfl, rfl⟩
    · rw [finish_apply, finish_apply, finalized, finalized, finishing, finishing]
      rw [show t.state.hasRuntime = false from hunmade]
      exact ⟨rfl, rfl⟩
  have hreport := @report_congr t.result _ _ hagree.1
  rw [ended, ended, left, left, final_eq, final_eq, hresult, hresult', hagree.1]
  refine ⟨hagree.2, rfl, ?_, ?_⟩
  · rw [close_output, close_output, hreport]
  · rw [close_messages, close_messages, hreport]

/-- **A process that has been told of a directory** starts its runtime there, with the command
line and with the options of its container. -/
theorem settings_of_told {p : LauncherProcess} {dir : Path}
    (hdir : p.handshake.extractDir = some dir) {step : LaunchStep Console} (hstep : step ∈ p.steps)
    {settings : StartSettings} {answer : Except RuntimeError StartOutcome}
    (hcall : step.call = .start settings answer) : ∃ a executable, p.Opens a ∧
      settings = .make executable dir p.argv (.parse a.runtimeOptions) := by
  obtain ⟨-, -, hcalls⟩ := toldLaunch_eq hdir rfl
  have hin : step ∈ runtimeCalls p.steps := List.mem_filter.mpr ⟨hstep, by rw [hcall]; rfl⟩
  rw [hcalls] at hin
  rcases List.mem_append.mp hin with hin | hin
  · obtain ⟨a, s₁, opening, w₁, hopen, rfl⟩ := toldLaunch_settings hin hcall
    refine ⟨a, s₁.session.executable, (opens_of_opening hopen).1, ?_⟩
    cases hopen
    rfl
  · rw [finishing] at hin
    split at hin
    · rw [List.mem_singleton.mp hin] at hcall
      cases hcall
    · cases hin

end LauncherProcess

end Native

end Stowage
