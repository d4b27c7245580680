import Stowage.Hosted.Simulation
import Stowage.Launch.Executable
import Stowage.Launch.Launcher
import Stowage.Launch.LibraryPath
import Stowage.Process.Program
import Stowage.Process.Shell
/-!
# Native processes

The surroundings of a launcher that is a process of its own. A child is the program at a path, run
with the environment of its parent and a message in it; it may be a launcher again, the shell, or a
script with an interpreter. A process that replaces itself ends as its replacement does.

What a runtime does is up to the `Host`. On the host `simulated` it is a bound runtime that is
simulated, and its trace is what the process prints.
-/

namespace Stowage

/-- What the processes of a launch share, and the runtime of the one that runs. A runtime may end
its process, which the simulation tells. -/
structure Console where
  /-- What has been printed, in order. -/
  output : List TraceItem
  /-- The messages for the user, in order. -/
  messages : List String
  bound : BoundRuntime
  simulation : Simulation
  deriving Repr, Inhabited

namespace Native

/-- Runs the program at a path with a command line. -/
abbrev Runner := (program : Path) → (argv : List String) → Effect Console FileError ProcessEnd

/-- The exit code of the launcher when the launch fails. -/
def failureExit : Int32 := -1

/-- What every message starts with. -/
def messageLead : String := "[bootpack] "

/-- The message about a script that has failed. -/
def scriptMessage (script : String) : String :=
  messageLead ++ s!"Failed to execute script '{script}' due to unhandled exception!"

/-- The message about a launch that has failed. -/
def failureMessage (e : LaunchError) : String := messageLead ++ ": ".intercalate e.messages

/-- Writes a message, unless the process has ended. -/
def say (message : String) : Effect Console Empty Unit :=
  .changeRest fun c =>
    if c.simulation.ended.isSome then c else { c with messages := c.messages ++ [message] }

/-- Where runtimes come from, and what they do. -/
structure Host where
  /-- Makes the runtime that a container needs, with a home directory. -/
  createRuntime : Archive → (home : Path) → Effect Console LaunchError Unit
  /-- The runtime that has been made. -/
  runtime : HostedRuntime Console

/-- The host on which the library of a runtime is loaded, and its entry points are simulated. -/
def simulated : Host where
  createRuntime a home := do
    let bound ← Effect.onFiles .runtime
      (BoundRuntime.load [home] a.cookie.runtimeLibrary a.cookie.runtimeVersion)
    .changeRest fun c => { c with bound, simulation := c.simulation.onLoad bound.library.exports }
  runtime := .ofBound (·.bound) (fun bound c => { c with bound }) fun call w =>
    let (answer, simulation) := Simulation.respond w.env call w.rest.simulation
    (answer, { w with rest := { w.rest with simulation } })

/-- A process ends as its child does. -/
def childExit : ProcessEnd → ChildExit
  | .exit code => .code (Int32.ofNat code)
  | .signal number => .signal (Int32.ofNat number)

/-- Runs a program with a message in its environment. The environment of its parent stays as it
is. -/
def start (run : Runner) (s : LaunchSession) (handshake : Handshake) :
    Effect Console LaunchError ProcessEnd := fun w =>
  let inside := { w with env := w.env.setAll handshake.pairs }
  let (result, after) := run s.executable s.commandLine inside
  (result.mapError (.spawn s.executable), { after with env := w.env })

/-- Runs a program as a child. -/
def runChild (run : Runner) (s : LaunchSession) (handshake : Handshake) :
    Effect Console LaunchError ChildExit :=
  childExit <$> start run s handshake

/-- Replaces the process by another run of its program, and so ends as that does. -/
def replace (run : Runner) (s : LaunchSession) : Effect Console LaunchError ChildExit := do
  let ending ← start run s .forRestart
  .changeRest fun c => { c with simulation := { c.simulation with ended := some ending } }
  return childExit ending

/-- The canonical path of the running program; if that cannot be found, the name by which it has
been called decides. -/
def currentExecutable (executable : Path) (argv0 : Option String) :
    Effect Console LaunchError Path := fun w =>
  let found := match w.files.canonicalize executable, argv0 with
    | .ok path, _ => .ok path
    | .error _, some name => Executable.ofInvocation w.files w.env name
    | .error e, none => .error (.executable (.untold e))
  (found, w)

/-- How a process ends whose launcher panics. -/
def panicEnd : ProcessEnd := .exit 101

/-- Ends the process by a panic. The launch that is under way goes no further than to clean up. -/
def panicked (w : World Console) : World Console :=
  { w with rest := { w.rest with simulation := { w.rest.simulation with ended := some panicEnd } } }

/-- Makes a home directory visible to the loader, in the environment of the process. -/
def exposeHome (home : Path) : Effect Console LaunchError Bool := fun w =>
  let (exposure, env) := LibraryPath.expose home w.env
  let after := { w with env }
  (exposure, if exposure.isPanic then panicked after else after)

/-- The surroundings of a launcher that is a process of its own. -/
def surroundings (host : Host) (run : Runner) (executable : Path) : Surroundings Console where
  currentExecutable := currentExecutable executable
  exposeHome := exposeHome
  respawn session handshake _ := runChild run session handshake
  restart session := replace run session
  clearHandshake := .change fun w => { w with env := Handshake.clear w.env }
  createRuntime := host.createRuntime
  runtime := host.runtime
  extracting _ := pure ()
  unhandledError script := say (scriptMessage script)

/-- Ends a process in the way that a signal has ended its child. A signal that does not end it
becomes an exit code. -/
def reraise (number : Int32) : ProcessEnd :=
  if Signal.isNamed number.toInt && Signal.endsProcess number.toInt.toNat then
    .signal number.toInt.toNat
  else .ofCode (Signal.exitCode number).toInt

/-- The exit code that tells how a launch has ended, if no signal ends the process first. -/
def exitCode : LaunchOutcome → Int32
  | .exit code => code
  | .signal number => Signal.exitCode number

/-- How a launcher ends after its launch. -/
def endOf : LaunchOutcome → ProcessEnd
  | .exit code => .ofCode code.toInt
  | .signal number => reraise number

variable [Zlib.Inflater]

/-- A launcher as a process: what it prints is added to the output, and what its parent keeps of a
runtime is left alone. -/
def runLauncher (host : Host) (run : Runner) (executable : Path) (argv : List String) :
    Effect Console Empty ProcessEnd := fun w =>
  let setup : LaunchSetup := ⟨.fromEnvironment w.env, .fromEnvironment w.env⟩
  let fresh : Console := { w.rest with simulation := .fresh [] 0 true, bound := default }
  let (result, after) :=
    launch (surroundings host run executable) setup argv { w with rest := fresh }
  let (ending, after) := match result with
    | .ok outcome => (endOf outcome, after)
    | .error e => (.ofCode failureExit.toInt, (say (failureMessage e) after).2)
  let c := after.rest
  -- the process may have ended before the launcher was through
  (.ok (c.simulation.ended.getD ending).seen, { after with
    rest := { c with
      output := c.output ++ c.simulation.calls
      simulation := w.rest.simulation
      bound := w.rest.bound } })

/-- How many launchers may run inside one another. -/
def maxDepth : Nat := 8

/-- Runs the program at a path with a command line, on a host. -/
def runOn (host : Host) : (depth : Nat) → Runner
  | 0 => fun _ _ => throw (.os .tooManyLinks)
  | depth + 1 => fun program argv w =>
    match Invocation.ofCall w.files w.env program argv with
    | .error e => (.error e, w)
    | .ok ⟨.launcher, path, argv⟩ =>
      (runLauncher host (runOn host depth) path argv).withError nofun w
    | .ok ⟨.shell, _, argv⟩ => (.ok (Shell.run w.files w.env argv), w)

/-- Runs the program at a path with a command line, where runtimes are simulated. -/
def run (depth : Nat) : Runner := runOn simulated depth

end Native

end Stowage
