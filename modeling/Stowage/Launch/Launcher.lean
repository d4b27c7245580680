import Stowage.Hosted.Driving
import Stowage.Launch.Extraction
import Stowage.Launch.Locate
import Stowage.Launch.Session
/-!
# Launching

A run finds the program, opens its container and decides how to go on. If an earlier process has
extracted already, or nothing has to be extracted, the program runs in place: its home is made
visible to the loader, the runtime is started and the entries are run. Otherwise the entries are
extracted into a new directory and a copy of the program is started, which runs from there.

However a run ends, the runtime is finalized if there is one, and then the extraction directory is
removed if the run has made one.

What a run needs from outside is in `Surroundings`; nothing is assumed of it.
-/

namespace Stowage

/-- How a launch ends. -/
inductive LaunchOutcome where
  | exit (code : Int32)
  /-- The child has been ended by this signal. -/
  | signal (number : Int32)
  deriving DecidableEq, Repr

namespace LaunchOutcome

/-- A launch ends as the process that it has waited for. -/
def ofChild : ChildExit → LaunchOutcome
  | .code code => exit code
  | .signal number => signal number

end LaunchOutcome

/-- What a run needs from outside. -/
structure Surroundings (τ : Type) where
  /-- The canonical path of the running program. -/
  currentExecutable : (argv0 : Option String) → Effect τ LaunchError Path
  /-- Makes a home directory visible to the loader and says whether that changed anything. -/
  exposeHome : Path → Effect τ LaunchError Bool
  /-- Starts a copy of the program with a message for it and waits for its end. -/
  respawn : LaunchSession → Handshake → (ignoreSignals : Bool) → Effect τ LaunchError ChildExit
  /-- Replaces this process by a copy that knows of it. Returns how the copy ends. -/
  restart : LaunchSession → Effect τ LaunchError ChildExit
  /-- Drops the message from an earlier process. -/
  clearHandshake : Effect τ Empty Unit
  /-- Makes the runtime that a container needs, with a home directory. -/
  createRuntime : Archive → (home : Path) → Effect τ LaunchError Unit
  /-- The runtime that has been made. -/
  runtime : HostedRuntime τ
  /-- Hears of each entry that is about to be extracted. -/
  extracting : (name : String) → Effect τ Empty Unit
  /-- Hears of a script that has failed. -/
  unhandledError : (script : String) → Effect τ Empty Unit

/-- How a run is set up. -/
structure LaunchSetup where
  /-- The message from an earlier process. -/
  handshake : Handshake
  policy : UnpackPolicy
  deriving DecidableEq, Repr

/-- What is known in the course of a run. -/
structure LaunchState where
  session : LaunchSession
  options : RuntimeOptions
  /-- A runtime has been made and not been finalized. -/
  hasRuntime : Bool
  deriving DecidableEq, Repr, Inhabited

/-- One part of a run. -/
abbrev Launch (τ α : Type) := ExceptT LaunchError (StateT LaunchState (StateM (World τ))) α

namespace Launch

variable {τ α ε : Type}

/-- An effect as a part of a run, with its errors seen as errors of a launch. -/
def lift (f : ε → LaunchError) (e : Effect τ ε α) : Launch τ α := fun s w =>
  let (r, w) := e w
  ((r.mapError f, s), w)

/-- An effect that cannot fail, as a part of a run. -/
def always (e : Effect τ Empty α) : Launch τ α := lift nofun e

/-- A call on the file system as a part of a run. -/
def onFiles (c : FileSystem.Call LaunchError α) : Launch τ α := lift id (.onFiles id c)

/-- Changes what is known of the session. -/
def setSession (f : LaunchSession → LaunchSession) : Launch τ Unit :=
  modify fun s => { s with session := f s.session }

/-- What is known of the session. -/
def session : Launch τ LaunchSession := do
  return (← get).session

/-- The home directory of a program that runs in place: its own directory, or one below it that an
option names. -/
def inPlaceHome (s : LaunchSession) (o : RuntimeOptions) : Path :=
  match o.launcher.contentsDirectory with
  | some dir => (s.executableDir.containedJoin dir).getD s.executableDir
  | none => s.executableDir

/-- Finds the program and opens its container. -/
def openArchive (env : Surroundings τ) : Launch τ Archive := do
  let argv := (← session).argv
  let executable ← lift id (env.currentExecutable argv.head?)
  setSession ({ · with executable })
  let a ← onFiles (Locate.openArchive executable)
  modify ({ · with options := .parse a.runtimeOptions })
  return a

variable [Zlib.Inflater]

/-- Makes an extraction directory and extracts all entries into it. -/
def extract (env : Surroundings τ) (setup : LaunchSetup) (a : Archive) : Launch τ Path := do
  let option := (← get).options.launcher.extractionParent
  let parent ← always (.ask fun w => Extraction.parentDir w.env option)
  let dir ← onFiles (Extraction.makeDir parent)
  -- from here on the directory is removed however the run ends
  setSession (·.adopt dir)
  let resolver : Resolver := ⟨(← session).executableDir, setup.policy⟩
  let extraction := Extraction.extractAll a dir setup.policy resolver env.extracting
  let _ ← lift id fun w =>
    let ((r, _), w) := extraction [] w
    (r, w)
  return dir

/-- Extracts and lets a copy of the program run from the extraction directory. -/
def extractAndRespawn (env : Surroundings τ) (setup : LaunchSetup) (a : Archive) :
    Launch τ LaunchOutcome := do
  let dir ← extract env setup a
  setSession ({ · with home := dir })
  let _ ← lift id (env.exposeHome dir)
  let ignoreSignals := (← get).options.launcher.ignoreSignals
  let ended ← lift id (env.respawn (← session) (.forChild dir) ignoreSignals)
  return .ofChild ended

/-- Starts the runtime and runs the compiled modules and code bundles; nothing if the runtime asks
to exit. -/
def bootstrap (env : Surroundings τ) (a : Archive) : Launch τ (Option Int32) := do
  let s ← get
  let settings := StartSettings.make s.session.executable s.session.home s.session.argv s.options
  lift id (env.createRuntime a s.session.home)
  modify ({ · with hasRuntime := true })
  match ← lift .runtime (env.runtime.start settings) with
  | .exit code => return some code
  | .running =>
    let _ ← lift .runtime (a.runModules env.runtime)
    let _ ← lift .runtime (a.addBundles env.runtime)
    return none

/-- Runs the scripts. One that fails is reported and decides the exit code. -/
def runPayload (env : Surroundings τ) (a : Archive) : Launch τ LaunchOutcome := do
  match ← always (a.runScripts env.runtime).outcome with
  | .ok _ => return .exit 0
  | .error (.scriptFailed script) =>
    always (env.unhandledError script)
    return .exit unhandledErrorExit
  | .error e => throw (.runtime e)

/-- Starts the runtime and runs all entries. -/
def runEntries (env : Surroundings τ) (a : Archive) : Launch τ LaunchOutcome := do
  match ← bootstrap env a with
  | some code => return .exit code
  | none => runPayload env a

/-- Runs the program from its home directory. If the home directory had to be made visible, the
process may replace itself first, but a process that has been replaced does not do so again. -/
def runInPlace (env : Surroundings τ) (setup : LaunchSetup) (a : Archive) :
    Launch τ LaunchOutcome := do
  let s ← get
  let changed ← lift id (env.exposeHome s.session.home)
  if setup.handshake.restarted then
    always env.clearHandshake
    runEntries env a
  else if changed && s.options.launcher.restartForLibraryPath && !s.session.isChild then
    return .ofChild (← lift id (env.restart s.session))
  else runEntries env a

/-- A run up to its outcome, before anything is finalized or removed. -/
def body (env : Surroundings τ) (setup : LaunchSetup) : Launch τ LaunchOutcome := do
  let a ← openArchive env
  match setup.handshake.extractDir with
  | some dir =>
    setSession ({ · with isChild := true, home := dir })
    always env.clearHandshake
    runInPlace env setup a
  | none =>
    if a.needsExtraction then extractAndRespawn env setup a
    else
      let s ← get
      setSession ({ · with home := inPlaceHome s.session s.options })
      runInPlace env setup a

/-- Finalizes the runtime and removes the extraction directory. -/
def finish (env : Surroundings τ) (s : LaunchState) : Effect τ Empty Unit := do
  if s.hasRuntime then env.runtime.finalize
  let _ ← Effect.onFiles id s.session.cleanUp

/-- What is known before a run. -/
def initial (argv : List String) : LaunchState := ⟨.ofArgv argv, .none, false⟩

end Launch

/-- Runs the launcher with a command line. -/
def launch [Zlib.Inflater] {τ : Type} (env : Surroundings τ) (setup : LaunchSetup)
    (argv : List String) : Effect τ LaunchError LaunchOutcome := fun w =>
  let ((result, s), w) := Launch.body env setup (Launch.initial argv) w
  -- nothing that happens from here on changes the result
  (result, ((Launch.finish env s) w).2)

end Stowage
