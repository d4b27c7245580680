import Stowage.Hosted.Simulation
import Stowage.Launch.Launcher
/-!
# Rehearsing a launch

A rehearsal runs the launcher among surroundings that follow a plan and log every call before it is
carried out. The runtime is a line runtime, or a bound runtime that is simulated. The child of a
rehearsed launch may be a second launcher with a log entry of its own for each call.
-/

namespace Stowage

/-- The runtime of a rehearsal. -/
inductive RehearsedRuntime where
  | lines (exitOnStart : Option Int32)
  | simulated
  deriving DecidableEq, Repr

/-- The calls that a plan can refuse. -/
inductive RefusableCall where
  | currentExecutable
  | respawn
  | exposeHome
  | restart
  | createRuntime
  deriving DecidableEq, Repr

namespace RefusableCall

/-- How a call is named. -/
def name : RefusableCall → String
  | currentExecutable => "current_executable"
  | respawn => "respawn"
  | exposeHome => "expose_home"
  | restart => "restart"
  | createRuntime => "create_runtime"

/-- All calls that a plan can refuse. -/
def all : List RefusableCall := [currentExecutable, respawn, exposeHome, restart, createRuntime]

/-- The call with a name. -/
def ofName? (name : String) : Option RefusableCall := all.find? (·.name = name)

end RefusableCall

/-- How the surroundings of a rehearsal behave. -/
structure RehearsalPlan where
  executable : Path
  policy : UnpackPolicy
  /-- What the calls that make a home visible answer, in order; afterwards they answer no. -/
  exposed : List Bool
  exit : ChildExit
  restartExit : ChildExit
  /-- The child is a second launcher. -/
  runsChild : Bool
  runtime : RehearsedRuntime
  refused : Option RefusableCall
  /-- The observers are not logged. -/
  isQuiet : Bool
  deriving DecidableEq, Repr

/-- A call of a launcher to its surroundings. -/
inductive RehearsedCall where
  | currentExecutable (argv0 : Option String)
  | exposeHome (home : Path)
  | respawn (session : LaunchSession) (handshake : Handshake) (ignoreSignals : Bool)
      (files : List (String × FileEntry))
  | restart (home : Path)
  | clearHandshake
  | createRuntime (library : String) (version : UInt32) (home : Path)
  | start (settings : StartSettings)
  | runModule (name : String) (code : Bytes)
  | addCodeBundle (location : String)
  | runScript (name : String) (source : Bytes)
  /-- With the names that the line runtime has bound by then. -/
  | finalize (globals : Option (List (String × String)))
  | extracting (name : String)
  | unhandledError (script : String)
  deriving Repr

namespace RehearsedCall

/-- How a call is named in the log. -/
def name : RehearsedCall → String
  | currentExecutable _ => "current_executable"
  | exposeHome _ => "expose_home"
  | respawn .. => "respawn"
  | restart _ => "restart"
  | clearHandshake => "clear_handshake"
  | createRuntime .. => "create_runtime"
  | start _ => "start"
  | runModule .. => "run_module"
  | addCodeBundle _ => "add_code_bundle"
  | runScript .. => "run_script"
  | finalize _ => "finalize"
  | extracting _ => "extracting"
  | unhandledError _ => "unhandled_error"

end RehearsedCall

/-- An entry of the log. -/
structure RehearsalEntry where
  byChild : Bool
  call : RehearsedCall
  deriving Repr

/-- What a rehearsal keeps. -/
structure RehearsalState where
  /-- The log, with the last entry first. -/
  log : List RehearsalEntry
  /-- How often the launcher has asked to make a home visible. -/
  exposures : Nat
  lines : LineRuntime
  bound : BoundRuntime
  simulation : Simulation
  deriving Repr, Inhabited

namespace Rehearsal

/-- Adds an entry to the log. -/
def note {ε : Type} (byChild : Bool) (call : RehearsedCall) : Effect RehearsalState ε Unit :=
  .changeRest fun s => { s with log := ⟨byChild, call⟩ :: s.log }

/-- Refuses a call if the plan says so. -/
def refuse (plan : RehearsalPlan) (call : RefusableCall) :
    Effect RehearsalState LaunchError Unit :=
  if plan.refused = some call then throw (.executable (.refused call.name)) else pure ()

/-- The runtime of a plan. -/
def plainRuntime : RehearsedRuntime → HostedRuntime RehearsalState
  | .lines _ => .ofLines (·.lines) fun lines s => { s with lines }
  | .simulated => .ofBound (·.bound) (fun bound s => { s with bound }) fun c w =>
    let (answer, simulation) := Simulation.respond w.env c w.rest.simulation
    (answer, { w with rest := { w.rest with simulation } })

/-- The names that the runtime of a plan has bound. -/
def globals (runtime : RehearsedRuntime) (s : RehearsalState) :
    Option (List (String × String)) :=
  match runtime with
  | .lines _ => some s.lines.journal.globals
  | .simulated => none

/-- The runtime of a plan with its calls logged. -/
def loggedRuntime (plan : RehearsalPlan) (byChild : Bool) : HostedRuntime RehearsalState :=
  let plain := plainRuntime plan.runtime
  { start := fun settings => do
      note byChild (.start settings)
      plain.start settings
    runModule := fun name code => do
      note byChild (.runModule name code)
      plain.runModule name code
    addCodeBundle := fun location => do
      note byChild (.addCodeBundle location)
      plain.addCodeBundle location
    runScript := fun name source => do
      note byChild (.runScript name source)
      plain.runScript name source
    finalize := do
      plain.finalize
      let bindings ← Effect.ask fun w => globals plan.runtime w.rest
      note byChild (.finalize bindings) }

/-- Makes the runtime of a plan. -/
def createRuntime (plan : RehearsalPlan) (a : Archive) (home : Path) :
    Effect RehearsalState LaunchError Unit :=
  match plan.runtime with
  | .lines exitOnStart => .changeRest fun s => { s with lines := .fresh exitOnStart }
  | .simulated => do
    let bound ← Effect.onFiles .runtime
      (BoundRuntime.load [home] a.cookie.runtimeLibrary a.cookie.runtimeVersion)
    .changeRest fun s =>
      { s with bound, simulation := s.simulation.onLoad bound.library.exports }

/-- The surroundings of a launcher, given what happens when a child is to be run. -/
def surroundings (plan : RehearsalPlan) (byChild : Bool)
    (runChild : LaunchSession → Handshake → Effect RehearsalState LaunchError ChildExit) :
    Surroundings RehearsalState where
  currentExecutable argv0 := do
    note byChild (.currentExecutable argv0)
    refuse plan .currentExecutable
    return plan.executable
  exposeHome home := do
    note byChild (.exposeHome home)
    let n ← Effect.ask (·.rest.exposures)
    .changeRest fun s => { s with exposures := n + 1 }
    refuse plan .exposeHome
    return plan.exposed.getD n false
  respawn session handshake ignoreSignals := do
    let dir := (handshake.extractDir).getD .empty
    let files ← Effect.ask (·.files.listing dir)
    note byChild (.respawn session handshake ignoreSignals files)
    refuse plan .respawn
    runChild session handshake
  restart session := do
    note byChild (.restart session.home)
    refuse plan .restart
    return plan.restartExit
  clearHandshake := note byChild .clearHandshake
  createRuntime a home := do
    note byChild (.createRuntime a.cookie.runtimeLibrary a.cookie.runtimeVersion home)
    refuse plan .createRuntime
    createRuntime plan a home
  runtime := loggedRuntime plan byChild
  extracting name := if plan.isQuiet then pure () else note byChild (.extracting name)
  unhandledError script := if plan.isQuiet then pure () else note byChild (.unhandledError script)

/-- A process ends as its launch does. -/
def exitOf : LaunchOutcome → ChildExit
  | .exit code => .code code
  | .signal number => .signal number

variable [Zlib.Inflater]

/-- The child of a rehearsed launch, when it is a launcher itself. Children of that one follow the
plan without running. -/
def runChild (plan : RehearsalPlan) (session : LaunchSession) (handshake : Handshake) :
    Effect RehearsalState LaunchError ChildExit := do
  .changeRest fun s => { s with exposures := 0 }
  let outcome ← launch (surroundings plan true fun _ _ => return plan.exit)
    ⟨handshake, plan.policy⟩ session.argv
  return exitOf outcome

/-- Rehearses a launch. -/
def run (plan : RehearsalPlan) (handshake : Handshake) (argv : List String) :
    Effect RehearsalState LaunchError LaunchOutcome :=
  let child := if plan.runsChild then runChild plan else fun _ _ => return plan.exit
  launch (surroundings plan false child) ⟨handshake, plan.policy⟩ argv

end Rehearsal

end Stowage
