import Stowage.Proofs.Launch.Told

/-!
# Programs that run as a copy

A program whose files have to be extracted runs as a copy of itself.  It makes a
directory, fills it, and starts the copy, which is told of the directory and runs from
there.  Then it waits, and ends as the copy does (`LetsRun.refined`).

From outside this looks like one process that has found its files in place.
`onefile_refines_inPlace` says so: both processes together make the calls to a runtime
that the one process makes, print the same and end in the same way.
-/

namespace Stowage

open Result

variable {τ : Type}

/-! ## Processes that let a copy run -/

/-- An extraction whose observer changes nothing changes files only. -/
theorem Extraction.extractAmong_world [Zlib.Inflater] {observe : String → Effect τ Empty Unit}
    (hobserve : ∀ name w, ((observe name).apply w).2 = w) (a : Archive) (dir : Path)
    (policy : UnpackPolicy) (resolver : Resolver) (count : Nat)
    (entries : List (Except Malformation Record)) (pool : Pool) (w : World τ) :
    ∃ files, (Stateful.apply (extractAmong a dir policy resolver observe count entries) pool w).2 =
      { w with files } := by
  induction entries generalizing count pool w with
  | nil => exact ⟨w.files, rfl⟩
  | cons e rest ih =>
    cases e with
    | error m => exact ⟨w.files, rfl⟩
    | ok r =>
      rw [extractAmong]
      split
      · simp only [Stateful.apply_bind, apply_onWorld, apply_onFiles, hobserve]
        rcases (extractEntry a dir policy resolver r).apply pool w.files with
          ⟨⟨e | path, pool'⟩, files⟩
        · exact ⟨files, rfl⟩
        · exact ih (count + 1) pool' { w with files }
      · exact ih count pool w

/-- So a launch whose surroundings hear of entries without changing anything changes files
only while it extracts. -/
theorem Launch.Extracted.world [Zlib.Inflater] {env : Surroundings τ} {setup : LaunchSetup}
    {a : Archive} {s s' : LaunchState} {w w' : World τ} {dir : Path} {steps : List (LaunchStep τ)}
    (h : Extracted env setup a s w (.ok dir) s' steps w')
    (hobserve : ∀ name w, ((env.extracting name).apply w).2 = w) :
    ∃ files, w' = { w with files } := by
  cases h with
  | filled hmake hextract _ =>
    obtain ⟨files, hworld⟩ := Extraction.extractAmong_world hobserve a dir setup.policy
      (resolverOf s setup) 0 a.entries [] { w with files := _ }
    rw [Extraction.extractAll] at hextract
    rw [hextract] at hworld
    exact ⟨files, hworld⟩

namespace Invocation

/-- A path with several components is executed as it stands. -/
theorem candidates_of_slash {env : Environment} {program : Path}
    (h : program.chars.contains '/' = true) : candidates env program = [program] := by
  rw [candidates, h, Bool.or_true, if_pos rfl]

/-- **A call of a launcher** runs it with the command line that it is called with. -/
theorem eq_of_ofCall {fs : FileSystem} {env : Environment} {program : Path} {argv : List String}
    {bytes : Bytes} {invocation : Invocation} (hslash : program.chars.contains '/' = true)
    (hfile : readProgram fs program = .ok bytes)
    (hlauncher : ProgramImage.ofBytes bytes = .binary .launcher)
    (h : ofCall fs env program argv = .ok invocation) : invocation =
      ⟨.launcher, program, argv⟩ := by
  have hpath : ofPath fs maxScripts program argv = .ok ⟨.launcher, program, argv⟩ := by
    rw [maxScripts, ofPath, hfile, ok_bind, hlauncher]
  rw [ofCall] at h
  split at h
  · cases h
  · rw [candidates_of_slash hslash, ofCandidates, hpath] at h
    exact (Except.ok.inj h).symm

end Invocation

namespace Native

open Launch

/-- A process that exits with a code that has been seen exits with this code. -/
theorem ofCode_ofNat {code : Nat} (h : code < 256) :
    ProcessEnd.ofCode (Int32.ofNat code).toInt = .exit code := by
  rw [Int32.toInt_ofNat_of_lt (by omega), ProcessEnd.ofCode]
  congr 1
  omega

/-- The path of a program that has been found is that of a location. -/
theorem exists_location {program path : Path} {argv0 : Option String} {w w' : World Console}
    (h : (currentExecutable program argv0).apply w = (.ok path, w')) :
    ∃ loc : Location, path = loc.path := by
  suffices hresolved : ∃ found, w.files.canonicalize found = .ok path by
    obtain ⟨found, hcanonical⟩ := hresolved
    obtain ⟨loc, hloc, -⟩ := FileSystem.canonicalize_eq_ok.mp hcanonical
    exact ⟨loc, hloc⟩
  cases hcanonical : w.files.canonicalize program with
  | ok path' =>
    rw [currentExecutable_of_ok hcanonical] at h
    cases h
    exact ⟨program, hcanonical⟩
  | error e =>
    cases argv0 with
    | none =>
      rw [currentExecutable_none hcanonical] at h
      cases h
    | some name =>
      rw [currentExecutable_some hcanonical] at h
      have hfound : Executable.ofInvocation w.files w.env name = .ok path := congrArg Prod.fst h
      rw [Executable.ofInvocation] at hfound
      split at hfound
      · exact ⟨_, mapError_eq_ok.mp hfound⟩
      · obtain ⟨found, -, hcanonical⟩ := bind_eq_ok.mp hfound
        exact ⟨found, mapError_eq_ok.mp hcanonical⟩

namespace LauncherProcess

variable {p : LauncherProcess} {step : LaunchStep Console} {session : LaunchSession}
  {message : Handshake} {ignoreSignals : Bool} {answer : Except LaunchError ChildExit}

variable [Zlib.Inflater]

/-- **How a process lets a copy run**: in which world and with which message, and what it is
left with. -/
structure LetsRun (p : LauncherProcess) (session : LaunchSession) (dir : Path)
    (before : World Console) (answer : Except LaunchError ChildExit) : Prop where
  executable : session.executable = p.executable
  argv : session.argv = p.argv
  slash : p.executable.chars.contains '/' = true
  exposed : ∃ changed, (LibraryPath.expose dir p.world.env).1 = .ok changed
  env : before.env = (LibraryPath.expose dir p.world.env).2
  rest : before.rest = (freshWorld p.world).rest
  answered : ∃ after, (runChild p.run session (.forChild dir)).apply before = (answer, after) ∧
    p.launched.rest = after.rest
  result : p.result = answer.map .ofChild
  calls : runtimeCalls p.steps = []

theorem letsRun_of_mem (hstep : step ∈ p.steps)
    (hcall : step.call = .respawn session message ignoreSignals answer) :
    ∃ dir, message = .forChild dir ∧ dir.text ≠ "" ∧ p.LetsRun session dir step.before answer := by
  obtain ⟨a, s₁, opening, w₁, w₂, hopen, hhands, hlaunched, hunmade, hcalls⟩ :=
    handsOver_of_mem hstep (by rw [hcall]; rfl)
  rcases hhands.reason with ⟨-, dir, ⟨heard, w₃, changed, hextract, hexpose⟩, hstate, answer',
    hcall',
    hrespawn, hresult⟩ | ⟨-, -, ⟨_, _, hrestart⟩, -⟩
  swap
  · rw [hcall] at hrestart
    cases hrestart
  rw [hcall] at hcall'
  cases hcall'
  obtain ⟨files, rfl⟩ := hextract.world fun _ _ => rfl
  obtain ⟨hvisible, hbefore⟩ := exposeHome_eq_ok hexpose
  have hsame : w₁.env = p.world.env ∧ w₁.rest = (freshWorld p.world).rest ∧
      s₁.session.argv = p.argv ∧ ∃ loc : Location, s₁.session.executable = loc.path := by
    cases hopen with
    | opened hfind _ =>
      obtain ⟨loc, rfl⟩ := exists_location hfind
      obtain ⟨-, rfl⟩ := Prod.mk.inj hfind
      exact ⟨rfl, rfl, rfl, loc, rfl⟩
  obtain ⟨henv, hrest, hargv, loc, hpath⟩ := hsame
  refine ⟨dir, rfl, hextract.text_ne_empty, rfl, ?_, ?_, ?_, ?_, ?_, ⟨w₂, hrespawn, ?_⟩, hresult,
    hcalls⟩
  · rw [hstate, ← hargv]
    rfl
  · rw [LauncherProcess.executable, hstate]
    show s₁.session.executable.chars.contains '/' = true
    rw [hpath, Location.path, Path.chars_ofChars]
    rfl
  · rw [← henv]
    exact ⟨changed, hvisible⟩
  · rw [hbefore, ← henv]
  · rw [hbefore, ← hrest]
  · rw [hlaunched, finish_apply, finalized, hunmade, if_neg Bool.false_ne_true]

/-- The child that a process lets run. -/
def copy (p : LauncherProcess) (run : Runner) (dir : Path) (before : World Console) :
    LauncherProcess :=
  ⟨p.host, run, p.executable, p.argv, handOver before (.forChild dir)⟩

/-- **The process that a program would be** with the same command line if it found its files in
a directory: the directory is visible, and it is all that the process has been told of. -/
def inPlace (p : LauncherProcess) (run : Runner) (dir : Path) (files : FileSystem) :
    LauncherProcess where
  host := p.host
  run := run
  program := p.executable
  argv := p.argv
  world :=
    { files
      env := (Handshake.clear (LibraryPath.expose dir p.world.env).2).setAll
        (Handshake.forChild dir).pairs
      rest := p.world.rest }

/-- The child and the process that finds its files in place are told of the same directory. -/
theorem LetsRun.sameButMessages {dir : Path} {before : World Console}
    (h : p.LetsRun session dir before answer) (run run' : Runner) :
    SameButMessages (p.copy run dir before).world (p.inPlace run' dir before.files).world where
  files := rfl
  output := by
    show p.world.rest.output = before.rest.output
    rw [h.rest]
    rfl
  messages := by
    show p.world.rest.messages = before.rest.messages
    rw [h.rest]
    rfl
  env := by
    show Handshake.clear ((Handshake.clear (LibraryPath.expose dir p.world.env).2).setAll
      (Handshake.forChild dir).pairs) = Handshake.clear
        (before.env.setAll (Handshake.forChild dir).pairs)
    rw [Handshake.clear_setAll_forChild, Handshake.clear_setAll_forChild, h.env,
      Handshake.clear_clear]

/-- A process leaves the runtime of its parent alone. -/
theorem left_simulation (p : LauncherProcess) :
    p.left.rest.simulation = p.world.rest.simulation := by
  rw [left, final_eq]
  rfl

/-- How a process ends is seen from outside, and so its exit code is a byte. -/
theorem code_lt_of_ended {code : Nat} (h : p.ended = .exit code) : code < 256 := by
  rw [ended, final_eq] at h
  cases hseen : p.launched.rest.simulation.ended.getD (endingOf p.result) with
  | exit code' =>
    rw [hseen] at h
    cases h
    have hpos := Int.emod_lt_of_pos (code' : Int) (b := 256) (by decide)
    have hnonneg := Int.emod_nonneg (code' : Int) (b := 256) (by decide)
    omega
  | signal number =>
    rw [hseen] at h
    cases h

section
variable {dir : Path} {before : World Console} {bytes : Bytes} {code : Int32} {n : Nat}
  (hargv : p.argv ≠ []) (hfile : Invocation.readProgram before.files p.executable = .ok bytes)
  (hlauncher : ProgramImage.ofBytes bytes = .binary .launcher)
include hargv hfile hlauncher

/-- What runs when the program is called again is the launcher, with the same command line. -/
theorem LetsRun.called (h : p.LetsRun session dir before answer) {env : Environment}
    {invocation : Invocation} (hcall : Invocation.ofCall before.files env session.executable
      session.commandLine = .ok invocation) : invocation = ⟨.launcher, p.executable, p.argv⟩ := by
  have hline : session.commandLine = p.argv := by
    rw [LaunchSession.commandLine, h.argv, if_neg hargv]
  rw [h.executable, hline] at hcall
  exact Invocation.eq_of_ofCall h.slash hfile hlauncher hcall

/-- **A child that exits** is a launcher that does so, and the parent is left with what it has
printed and said. -/
theorem LetsRun.child (h : p.LetsRun session dir before (.ok (.code code)))
    (hrun : p.run = runOn p.host (n + 1)) :
    Invocation.ofCall before.files (before.env.setAll (Handshake.forChild dir).pairs)
        session.executable session.commandLine = .ok ⟨.launcher, p.executable, p.argv⟩ ∧
      (∃ number, (p.copy (runOn p.host n) dir before).ended = .exit number ∧
        code = Int32.ofNat number) ∧
      p.launched.rest = (p.copy (runOn p.host n) dir before).left.rest := by
  obtain ⟨after, hanswer, hleft⟩ := h.answered
  rw [hrun, runChild, Effect.apply_map, start_apply] at hanswer
  have hcalled : Invocation.ofCall before.files (before.env.setAll (Handshake.forChild dir).pairs)
      session.executable session.commandLine = .ok ⟨.launcher, p.executable, p.argv⟩ := by
    cases hcall : Invocation.ofCall before.files
      (before.env.setAll (Handshake.forChild dir).pairs) session.executable
        session.commandLine with
    | ok invocation => rw [h.called hargv hfile hlauncher hcall]
    | error e =>
      have herror : (runOn p.host (n + 1) session.executable session.commandLine).apply
          (handOver before (.forChild dir)) = (.error e, handOver before (.forChild dir)) := by
        show runOn p.host (n + 1) session.executable session.commandLine _ = _
        simp only [runOn, show Invocation.ofCall (handOver before (.forChild dir)).files
          (handOver before (.forChild dir)).env session.executable session.commandLine =
            .error e from hcall]
      rw [herror] at hanswer
      cases (Prod.mk.inj hanswer).1
  rw [runOn_launcher (w := handOver before (.forChild dir)) hcalled, ← copy] at hanswer
  generalize p.copy (runOn p.host n) dir before = q at hanswer ⊢
  obtain ⟨hended, rfl⟩ := Prod.mk.inj hanswer
  refine ⟨hcalled, ?_, hleft⟩
  have hexit : childExit q.ended = .code code := Except.ok.inj hended
  cases hcopy : q.ended with
  | exit number =>
    rw [hcopy] at hexit
    cases hexit
    exact ⟨number, rfl, rfl⟩
  | signal number =>
    rw [hcopy] at hexit
    cases hexit

/-- **A parent whose child exits** ends as the child does, and adds nothing to what the child
has printed and said. -/
theorem LetsRun.refined (h : p.LetsRun session dir before (.ok (.code code)))
    (hrun : p.run = runOn p.host (n + 1)) :
    p.ended = (p.copy (runOn p.host n) dir before).ended ∧
      p.left.rest.output = (p.copy (runOn p.host n) dir before).left.rest.output ∧
      p.left.rest.messages = (p.copy (runOn p.host n) dir before).left.rest.messages := by
  obtain ⟨-, ⟨number, hexit, rfl⟩, hleft⟩ := h.child hargv hfile hlauncher hrun
  have hfresh : p.launched.rest.simulation = .fresh [] 0 true := by
    rw [hleft, left_simulation]
    show before.rest.simulation = _
    rw [h.rest]
    rfl
  have hlt := code_lt_of_ended hexit
  rw [hexit, ← hleft]
  rw [ended, left, final_eq, hfresh, h.result]
  refine ⟨?_, ?_, rfl⟩
  · show (ProcessEnd.ofCode (Int32.ofNat number).toInt).seen = _
    rw [ofCode_ofNat hlt, ProcessEnd.seen, ProcessEnd.ofCode,
      Int.emod_eq_of_lt (by omega) (by omega)]
    rfl
  · show p.launched.rest.output ++ p.launched.rest.simulation.calls = _
    rw [hfresh]
    exact List.append_nil _

end

end LauncherProcess

open LauncherProcess

section

variable [Zlib.Inflater]

/-- **A process and its copy do what one process does.** -/
structure Refines (p q r : LauncherProcess) : Prop where
  /-- The copy is the only process that is started. -/
  once : p.handovers.length = 1
  last : q.handovers = []
  /-- Both together make the calls to a runtime that the one process makes. -/
  calls : runtimeCalls (p.steps ++ q.steps) = runtimeCalls r.steps
  /-- The first process ends as the one process does. -/
  ended : p.ended = r.ended
  /-- Both together print what the one process prints. -/
  output : p.left.rest.output = r.left.rest.output
  messages : p.left.rest.messages = r.left.rest.messages

namespace LauncherProcess

variable {p : LauncherProcess} {step : LaunchStep Console} {session : LaunchSession}
  {ignoreSignals : Bool} {code : Int32} {dir : Path} {bytes : Bytes} {n : Nat}

theorem handshake_copy (p : LauncherProcess) (run : Runner) (before : World Console)
    (hdir : dir.text ≠ "") : (p.copy run dir before).handshake.extractDir = some dir :=
  Handshake.fromEnvironment_forChild _ hdir

/-- In place, a process has been told of its directory only. -/
theorem handshake_inPlace (p : LauncherProcess) (run : Runner) (files : FileSystem)
    (hdir : dir.text ≠ "") : (p.inPlace run dir files).handshake = .forChild dir :=
  Handshake.fromEnvironment_clear_forChild _ hdir

theorem extractDir_inPlace (p : LauncherProcess) (run : Runner) (files : FileSystem)
    (hdir : dir.text ≠ "") : (p.inPlace run dir files).handshake.extractDir = some dir := by
  rw [handshake_inPlace p run files hdir]
  rfl

/-- In place, the directory is visible. -/
theorem containsHome_inPlace {changed : Bool}
    (h : (LibraryPath.expose dir p.world.env).1 = .ok changed) (run : Runner)
    (files : FileSystem) : LibraryPath.containsHome dir
      ((p.inPlace run dir files).world.env.get? LibraryPath.pathVariable) = true := by
  show LibraryPath.containsHome dir (((Handshake.clear (LibraryPath.expose dir p.world.env).2).set
    Handshake.extractDirVariable dir.text).get? LibraryPath.pathVariable) = true
  rw [Environment.get?_set_of_ne _ _ (by decide), Handshake.get?_clear _ (by decide) (by decide)]
  exact LibraryPath.containsHome_expose h

section
variable (hstep : step ∈ p.steps) (hcall : step.call =
    .respawn session (.forChild dir) ignoreSignals (.ok (.code code)))
  (hargv : p.argv ≠ [])
  (hfile : Invocation.readProgram step.before.files p.executable = .ok bytes)
  (hlauncher : ProgramImage.ofBytes bytes = .binary .launcher)
include hstep hcall hargv hfile hlauncher

/-- What a process has started is its copy. -/
theorem LetsRun.eq_copy {q : LauncherProcess}
    (h : p.LetsRun session dir step.before (.ok (.code code))) (hstarts : p.Starts q) :
    q = p.copy q.run dir step.before := by
  obtain ⟨other, hother, session', message', hover, hcalled, hhost, hworld⟩ := hstarts
  obtain rfl : other = step := by
    have hmem : other ∈ p.handovers := List.mem_filter.mpr ⟨hother, isHandover_of_handover? hover⟩
    rw [handovers_eq_singleton hstep (by rw [hcall]; rfl)] at hmem
    exact List.mem_singleton.mp hmem
  have hmessage : handover? other.call = some (session, .forChild dir) := by rw [hcall]; rfl
  obtain ⟨rfl, rfl⟩ : session = session' ∧ Handshake.forChild dir = message' := by
    simpa using hmessage.symm.trans hover
  have hinvocation := h.called hargv hfile hlauncher hcalled
  obtain ⟨host, runner, program, argv, world⟩ := q
  cases hinvocation
  cases hhost
  cases hworld
  rfl

/-- A process and its copy do what one process does. -/
theorem LetsRun.refines (h : p.LetsRun session dir step.before (.ok (.code code)))
    (hrun : p.run = runOn p.host (n + 1)) (hdir : dir.text ≠ "") (runner run : Runner) :
    Refines p (p.copy runner dir step.before) (p.inPlace run dir step.before.files) := by
  have hheard := handshake_copy p (runOn p.host n) step.before hdir
  -- it does not matter what the copy could start, since it starts nothing
  obtain ⟨hcalls, -⟩ := told_congr (p := p.copy (runOn p.host n) dir step.before)
    (q := p.copy runner dir step.before) rfl rfl rfl ⟨rfl, rfl, rfl, rfl⟩ hheard
    (handshake_copy p runner step.before hdir)
  obtain ⟨hcalls', hended', houtput', hmessages'⟩ := told_congr
    (p := p.copy (runOn p.host n) dir step.before)
    (q := p.inPlace run dir step.before.files) rfl rfl rfl
    (h.sameButMessages (runOn p.host n) run) hheard
    (extractDir_inPlace p run step.before.files hdir)
  obtain ⟨hended, houtput, hmessages⟩ := h.refined hargv hfile hlauncher hrun
  refine ⟨?_, handovers_eq_nil (handshake_copy p runner step.before hdir), ?_,
    hended.trans hended'.symm, houtput.trans houtput'.symm, hmessages.trans hmessages'.symm⟩
  · rw [handovers_eq_singleton hstep (by rw [hcall]; rfl)]
    rfl
  · rw [runtimeCalls, List.filter_append, ← runtimeCalls, ← runtimeCalls, h.calls,
      List.nil_append]
    exact hcalls.trans hcalls'.symm

end

end LauncherProcess

/-- **Running from an extracted copy refines running in place.**  Whenever a launcher extracts
into a directory and lets a copy run, which exits, the two processes do what one launcher does
that has the same command line and the same files, and has been told of the directory only:
it makes the directory visible, starts its runtime there, and exits with the same code.  All
that is asked is that the program at its path is the launcher that it has been. -/
theorem onefile_refines_inPlace {p : LauncherProcess} {n : Nat} {step : LaunchStep Console}
    {session : LaunchSession} {message : Handshake} {ignoreSignals : Bool} {code : Int32}
    (hrun : p.run = runOn p.host (n + 1)) (hlauncher : p.IsLauncher) (hargv : p.argv ≠ [])
    (hstep : step ∈ p.steps)
    (hcall : step.call = .respawn session message ignoreSignals (.ok (.code code)))
    (hkept : Invocation.readProgram step.before.files p.executable =
      Invocation.readProgram p.world.files p.program) (run : Runner) :
    ∃ dir, message = .forChild dir ∧
      (p.inPlace run dir step.before.files).handshake = .forChild dir ∧
      LibraryPath.containsHome dir ((p.inPlace run dir step.before.files).world.env.get?
        LibraryPath.pathVariable) = true ∧
      (∃ q, p.Starts q) ∧
      (∀ q, p.Starts q → Refines p q (p.inPlace run dir step.before.files)) ∧
      ∀ other ∈ (p.inPlace run dir step.before.files).steps, ∀ settings answer,
        other.call = .start settings answer → ∃ a executable,
          (p.inPlace run dir step.before.files).Opens a ∧
            settings = .make executable dir p.argv (.parse a.runtimeOptions) := by
  obtain ⟨bytes, hread, himage⟩ := hlauncher
  rw [hread] at hkept
  obtain ⟨dir, rfl, hdir, hlets⟩ := letsRun_of_mem hstep hcall
  obtain ⟨hcalled, -⟩ := hlets.child hargv hkept himage hrun
  obtain ⟨changed, hexposed⟩ := hlets.exposed
  have hstarts : p.Starts (p.copy run dir step.before) :=
    ⟨step, hstep, session, .forChild dir, by rw [hcall]; rfl, hcalled, rfl, rfl⟩
  refine ⟨dir, rfl, handshake_inPlace p run step.before.files hdir,
    containsHome_inPlace hexposed run step.before.files, ⟨_, hstarts⟩, fun q hstarts => ?_, ?_⟩
  · rw [hlets.eq_copy hstep hcall hargv hkept himage hstarts]
    exact hlets.refines hstep hcall hargv hkept himage hrun hdir q.run run
  · intro other hother settings answer hstart
    exact settings_of_told (extractDir_inPlace p run step.before.files hdir) hother hstart

end

/-- Whether a child came to an exit code at a step, with a given executable at a path. -/
def respawned (path : Path) (program : Option Bytes) (step : LaunchStep Console) : Bool :=
  match step.call with
  | .respawn _ _ _ (.ok (.code _)) =>
    (Invocation.readProgram step.before.files path).toOption == program
  | _ => false

/-- A program with a module, a bundle and a script beside the file that it extracts, on a host
that has a runtime. -/
def equippedProcess : LauncherProcess :=
  ⟨linkedIn, runOn linkedIn 2, ⟨"/app"⟩, ["app"], { sampleProcess.world with
    files := { sampleFiles with
      inodes := [⟨Mode.directory, ProgramImage.launcherHeading ++
        (Packing.withDefaultRuntime [.option "u", .plain .module "m" [0], .plain .data "d" [7],
          .plain .codeBundle "b" [1, 2], .plain .script "s" [10]]).bytes⟩] } }⟩

/-- The general statement for a program that extracts, and whose copy feeds its runtime. -/
theorem onefile_refines_inPlace_equippedProcess : ∃ step ∈ equippedProcess.steps, ∃ dir q,
    equippedProcess.Starts q ∧ Feed.all.map (·.called q.steps) = [["m"], ["/app?16"], ["s"]] ∧
      Refines equippedProcess q (equippedProcess.inPlace (run 0) dir step.before.files) := by
  have hprogram : ((Invocation.readProgram equippedProcess.world.files ⟨"/app"⟩).toOption.map
      ProgramImage.ofBytes) = some (.binary .launcher) := by decide +kernel
  have hlauncher : equippedProcess.IsLauncher := by
    obtain ⟨bytes, hread, himage⟩ := Option.map_eq_some_iff.mp hprogram
    exact ⟨bytes, toOption_eq_some.mp hread, himage⟩
  have hspawns : equippedProcess.steps.any (respawned equippedProcess.executable
      (Invocation.readProgram equippedProcess.world.files ⟨"/app"⟩).toOption) = true := by
    decide +kernel
  have hfeeds : (equippedProcess.next? (runOn linkedIn 1)).map (fun q =>
      Feed.all.map (·.called q.steps)) = some [["m"], ["/app?16"], ["s"]] := by decide +kernel
  obtain ⟨q, hnext, hfed⟩ := Option.map_eq_some_iff.mp hfeeds
  obtain ⟨step, hstep, hspawn⟩ := List.any_eq_true.mp hspawns
  rw [respawned] at hspawn
  split at hspawn
  · rename_i session message ignoreSignals code hcall
    obtain ⟨bytes, hread, himage⟩ := hlauncher
    have hkept : Invocation.readProgram step.before.files equippedProcess.executable =
        Invocation.readProgram equippedProcess.world.files ⟨"/app"⟩ := by
      have hsame := eq_of_beq hspawn
      have hread' : Invocation.readProgram equippedProcess.world.files ⟨"/app"⟩ = .ok bytes := hread
      rw [hread', toOption_eq_some.mp (hsame.trans (toOption_eq_some.mpr hread'))]
    obtain ⟨dir, -, -, -, -, hrefines, -⟩ := onefile_refines_inPlace
      (n := 1) rfl ⟨bytes, hread, himage⟩ (by decide) hstep hcall hkept (run 0)
    have hstarts := LauncherProcess.starts_of_next? hnext
    exact ⟨step, hstep, dir, q, hstarts, hfed, hrefines q hstarts⟩
  · cases hspawn

end Native

end Stowage
