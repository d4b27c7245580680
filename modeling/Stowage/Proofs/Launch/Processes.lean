import Stowage.Container.Builder
import Stowage.Proofs.Launch.LifeCycle
import Stowage.Proofs.Launch.Messages

/-!
# Launchers as processes

`LauncherProcess` is a launcher with the world in which it is started.  Running it comes
to its launch, what the user hears of the result, and an end (`final_eq`).  `Starts` is
the relation between a process and the one that it starts, or becomes.
-/

namespace Stowage

open Result

/-! ## Launcher processes -/

namespace Native

/-- A process starts with nothing printed and no runtime. -/
def freshWorld (w : World Console) : World Console :=
  { w with rest := { w.rest with simulation := .fresh [] 0 true, bound := default } }

/-- How a process is set up: by its environment. -/
def setupOf (env : Environment) : LaunchSetup := ⟨.fromEnvironment env, .fromEnvironment env⟩

/-- A launcher as a process: its host, what it does to run other programs, its program, its
command line, and the world in which it is started. -/
structure LauncherProcess where
  host : Host
  run : Runner
  program : Path
  argv : List String
  world : World Console

namespace LauncherProcess

/-- The surroundings of the launch of a process. -/
def surroundings (p : LauncherProcess) : Surroundings Console :=
  Native.surroundings p.host p.run p.program

variable [Zlib.Inflater]

/-- The steps of the launch of a process. -/
def steps (p : LauncherProcess) : List (LaunchStep Console) :=
  Launch.stepsOf p.surroundings (setupOf p.world.env) p.argv (freshWorld p.world)

/-- What is known at the end of the launch of a process, before it finishes. -/
def lastState (p : LauncherProcess) : LaunchState :=
  (Stateful.apply (Launch.body p.surroundings (setupOf p.world.env)) (Launch.initial p.argv)
    (freshWorld p.world)).1.2

/-- What a process finds when it opens its container. -/
def opened (p : LauncherProcess) : Except LaunchError Archive :=
  (Stateful.apply (Launch.openArchive p.surroundings) (Launch.initial p.argv)
    (freshWorld p.world)).1.1

/-- The container that a process opens. -/
def Opens (p : LauncherProcess) (a : Archive) : Prop := p.opened = .ok a

/-- A process makes an extraction directory. -/
def Extracts (p : LauncherProcess) : Prop := p.lastState.session.ownedDir.isSome = true

instance (p : LauncherProcess) : Decidable p.Extracts :=
  inferInstanceAs (Decidable (_ = true))

/-- The message that a process has been started with. -/
def handshake (p : LauncherProcess) : Handshake := .fromEnvironment p.world.env

/-- The path of its program that a process has found. -/
def executable (p : LauncherProcess) : Path := p.lastState.session.executable

/-- The file of a program is a launcher. -/
def IsLauncher (p : LauncherProcess) : Prop :=
  ∃ bytes, Invocation.readProgram p.world.files p.program = .ok bytes ∧
    ProgramImage.ofBytes bytes = .binary .launcher

/-- The result of the launch of a process. -/
def result (p : LauncherProcess) : Except LaunchError LaunchOutcome :=
  ((launch p.surroundings (setupOf p.world.env) p.argv).apply (freshWorld p.world)).1

/-- The world after the launch of a process. -/
def launched (p : LauncherProcess) : World Console :=
  ((launch p.surroundings (setupOf p.world.env) p.argv).apply (freshWorld p.world)).2

/-- How a process ends, and the world that it leaves. -/
def final (p : LauncherProcess) : ProcessEnd × World Console :=
  match (runLauncher p.host p.run p.program p.argv).apply p.world with
  | (.ok ended, w) => (ended, w)
  | (.error e, _) => e.elim

/-- How a process ends. -/
def ended (p : LauncherProcess) : ProcessEnd := p.final.1

/-- The world that a process leaves. -/
def left (p : LauncherProcess) : World Console := p.final.2

end LauncherProcess

section

variable [Zlib.Inflater]

/-- What a process does is the course of its launch. -/
theorem LauncherProcess.exists_course (p : LauncherProcess) : ∃ course w₁,
    Launch.Course p.surroundings (setupOf p.world.env) (Launch.initial p.argv)
        (freshWorld p.world) p.result p.lastState course w₁ ∧
      p.steps = course ++ Launch.finishing p.surroundings p.lastState w₁ ∧
      p.launched = ((Launch.finish p.surroundings p.lastState).apply w₁).2 := by
  obtain ⟨r, s, course, w₁, hbody, hcourse, hsteps, hlaunch⟩ :=
    Launch.exists_course p.surroundings (setupOf p.world.env) p.argv (freshWorld p.world)
  have hlast : p.lastState = s := by rw [lastState, hbody]
  rw [result, launched, hlast, hlaunch]
  exact ⟨course, w₁, hcourse, hsteps, rfl⟩

omit [Zlib.Inflater] in
/-- A process that opens its container does so in its own environment. -/
theorem LauncherProcess.opens_of_opening {p : LauncherProcess} {a : Archive} {s₁ : LaunchState}
    {opening : List (LaunchStep Console)} {w₁ : World Console}
    (h : Launch.Opening p.surroundings (Launch.initial p.argv) (freshWorld p.world) (.ok a) s₁
      opening w₁) : p.Opens a ∧ w₁.env = p.world.env := by
  refine ⟨by rw [Opens, opened, h.apply], ?_⟩
  cases h with
  | opened hfind _ =>
    obtain ⟨-, rfl⟩ := Prod.mk.inj hfind
    rfl

/-! ## Processes that start processes -/

/-- The world in which a launch starts another process, with the message for it. -/
def handOver (w : World Console) (handshake : Handshake) : World Console :=
  { w with env := w.env.setAll handshake.pairs }

/-- The message with which a step hands over, and the session that does. -/
def handover? : LaunchCall → Option (LaunchSession × Handshake)
  | .respawn session handshake _ _ => some (session, handshake)
  | .restart session _ => some (session, .forRestart)
  | _ => none

/-- **A process starts another one, or becomes it**: a step of its launch hands over, and
the program that is run there is a launcher again. -/
def LauncherProcess.Starts (p q : LauncherProcess) : Prop :=
  ∃ step ∈ p.steps, ∃ session handshake, handover? step.call = some (session, handshake) ∧
    Invocation.ofCall step.before.files (step.before.env.setAll handshake.pairs)
      session.executable session.commandLine = .ok ⟨.launcher, q.program, q.argv⟩ ∧
    q.host = p.host ∧ q.world = handOver step.before handshake

/-- The process that a process starts or becomes, if it does. -/
def LauncherProcess.next? (p : LauncherProcess) (run : Runner) : Option LauncherProcess :=
  match p.steps.find? (·.call.isHandover) with
  | some step =>
    match handover? step.call with
    | some (session, handshake) =>
      match Invocation.ofCall step.before.files (step.before.env.setAll handshake.pairs)
          session.executable session.commandLine with
      | .ok ⟨.launcher, program, argv⟩ =>
        some ⟨p.host, run, program, argv, handOver step.before handshake⟩
      | _ => none
    | none => none
  | none => none

theorem LauncherProcess.starts_of_next? {p q : LauncherProcess} {run : Runner}
    (h : p.next? run = some q) : p.Starts q := by
  unfold next? at h
  split at h
  · rename_i step hstep
    split at h
    · rename_i session handshake hover
      split at h
      · rename_i hcall
        cases h
        exact ⟨step, List.mem_of_find?_eq_some hstep, session, handshake, hover, hcall, rfl, rfl⟩
      · cases h
    · cases h
  · cases h

end

/-- A process that hands over runs its program in that world. -/
theorem start_apply (run : Runner) (s : LaunchSession) (handshake : Handshake)
    (w : World Console) :
    (start run s handshake).apply w =
      (((run s.executable s.commandLine).apply (handOver w handshake)).1.mapError
        (.spawn s.executable),
        { ((run s.executable s.commandLine).apply (handOver w handshake)).2 with env := w.env }) :=
          rfl

/-! ## How processes end -/

/-- How a process ends whose launch has the given result, unless its runtime ends it. -/
def endingOf : Except LaunchError LaunchOutcome → ProcessEnd
  | .ok outcome => endOf outcome
  | .error _ => .ofCode failureExit.toInt

/-- What the user hears of the result of a launch. -/
def report (result : Except LaunchError LaunchOutcome) : Effect Console Empty Unit :=
  match result with
  | .ok _ => pure ()
  | .error e => say (failureMessage e)

/-- A process adds what its runtime has printed to the output, and takes its runtime with
it. -/
def close (w w' : World Console) : World Console :=
  { w' with rest := { w'.rest with
      output := w'.rest.output ++ w'.rest.simulation.calls
      simulation := w.rest.simulation
      bound := w.rest.bound } }

@[simp] theorem close_output (w w' : World Console) :
    (close w w').rest.output = w'.rest.output ++ w'.rest.simulation.calls := rfl

@[simp] theorem close_messages (w w' : World Console) :
    (close w w').rest.messages = w'.rest.messages := rfl

/-- **What running a launcher comes to**: its launch, what the user hears of the result, and
how the process ends. -/
theorem LauncherProcess.final_eq [Zlib.Inflater] (p : LauncherProcess) :
    p.final = ((p.launched.rest.simulation.ended.getD (endingOf p.result)).seen,
      close p.world ((report p.result).apply p.launched).2) := by
  have hsaid (message : String) (w : World Console) :
      ((say message).apply w).2.rest.simulation = w.rest.simulation := by
    show (if _ then _ else _ : Console).simulation = _
    split <;> rfl
  have hrun : (runLauncher p.host p.run p.program p.argv).apply p.world =
      (.ok (((report p.result).apply p.launched).2.rest.simulation.ended.getD
        (endingOf p.result)).seen, close p.world ((report p.result).apply p.launched).2) := by
    rcases hlaunch : (launch p.surroundings (setupOf p.world.env) p.argv).apply
      (freshWorld p.world) with ⟨r, w⟩
    rw [result, launched, hlaunch]
    have hlaunch' : launch (Native.surroundings p.host p.run p.program)
      ⟨.fromEnvironment p.world.env, .fromEnvironment p.world.env⟩ p.argv
        (freshWorld p.world) = (r, w) := hlaunch
    show runLauncher p.host p.run p.program p.argv p.world = _
    rw [freshWorld] at hlaunch'
    simp only [runLauncher, hlaunch']
    cases r <;> rfl
  rw [final, hrun]
  cases p.result with
  | ok _ => rfl
  | error e => rw [report, hsaid]

/-- Where a launcher is found, the launcher is run. -/
theorem runOn_launcher [Zlib.Inflater] {host : Host} {depth : Nat} {program path : Path}
    {argv argv' : List String} {w : World Console}
    (h : Invocation.ofCall w.files w.env program argv = .ok ⟨.launcher, path, argv'⟩) :
    (runOn host (depth + 1) program argv).apply w =
      (.ok (LauncherProcess.ended ⟨host, runOn host depth, path, argv', w⟩),
        LauncherProcess.left ⟨host, runOn host depth, path, argv', w⟩) := by
  show runOn host (depth + 1) program argv w = _
  simp only [runOn, h, LauncherProcess.ended, LauncherProcess.left, LauncherProcess.final]
  show ((((runLauncher host (runOn host depth) path argv').apply w).1.mapError Empty.elim),
    ((runLauncher host (runOn host depth) path argv').apply w).2) = _
  rcases (runLauncher host (runOn host depth) path argv').apply w with ⟨r | ended, w'⟩
  · exact r.elim
  · rfl

/-! ## A launcher that extracts -/

/-- A host whose runtime is part of the program, so that no library has to be read. -/
def linkedIn : Host where
  createRuntime a _ := .changeRest fun c => { c with
    bound := ⟨⟨⟨"/app"⟩, requiredSymbols⟩, a.cookie.runtimeVersion, .empty, false⟩
    simulation := c.simulation.onLoad requiredSymbols }
  runtime := simulated.runtime

/-- A file system with a directory for temporary files and a program whose container holds
one file. -/
def sampleFiles : FileSystem where
  nodes := [(["tmp"], .directory Mode.directory), (["app"], .file 0)]
  inodes := [⟨Mode.directory, ProgramImage.launcherHeading ++
    (Packing.withDefaultRuntime [.plain .data "d" [7]]).bytes⟩]
  openFiles := []
  workingDir := []
  serial := 0
  journal := []

/-- The program as a process with an empty environment. -/
def sampleProcess : LauncherProcess :=
  ⟨simulated, run 2, ⟨"/app"⟩, ["app"],
    ⟨sampleFiles, .empty, ⟨[], [], default, .fresh [] 0 true⟩⟩⟩

end Native

end Stowage
