import Stowage.Container.Archive
import Stowage.Hosted.Bound
import Stowage.Hosted.LineRuntime
import Stowage.World.Basic
/-!
# Driving a runtime

The entries of a container are fed to a runtime in stored order: first the compiled modules, of
which any may fail, then the code bundles, then the scripts up to the first that fails. An entry
that cannot be read ends the work.

`HostedRuntime` is what the launcher needs of a runtime, with its state somewhere in the world.
-/

namespace Stowage

/-- The operations of a runtime. -/
structure HostedRuntime (τ : Type) where
  start : StartSettings → Effect τ RuntimeError StartOutcome
  runModule : (name : String) → (code : Bytes) → Effect τ RuntimeError Unit
  addCodeBundle : (location : String) → Effect τ RuntimeError Unit
  runScript : (name : String) → (source : Bytes) → Effect τ RuntimeError Unit
  /-- Shuts the runtime down, unless it is not running. -/
  finalize : Effect τ Empty Unit

namespace HostedRuntime

/-- The operations of a bound runtime whose entry points are answered by `respond`. -/
def ofBound {τ : Type} (get : τ → BoundRuntime) (set : BoundRuntime → τ → τ)
    (respond : {shape : AnswerShape} → EntryCall shape → World τ → shape.Answer × World τ) :
    HostedRuntime τ :=
  let carryOut {α : Type} (work : Hosted α) : Effect τ RuntimeError α := fun w =>
    let ((result, bound), w) := (work.run.run (get w.rest)).run respond w
    (result, { w with rest := set bound w.rest })
  { start := fun settings => carryOut (BoundRuntime.start settings)
    runModule := fun name code => carryOut (BoundRuntime.runModule name code)
    addCodeBundle := fun location => carryOut (BoundRuntime.addCodeBundle location)
    runScript := fun name source => carryOut (BoundRuntime.runScript name source)
    finalize := fun w => (.ok (), (carryOut BoundRuntime.finalize w).2) }

/-- The operations of a line runtime. -/
def ofLines {τ : Type} (get : τ → LineRuntime) (set : LineRuntime → τ → τ) : HostedRuntime τ :=
  let carryOut {α : Type} (work : LineRuntime → Except RuntimeError α × LineRuntime) :
      Effect τ RuntimeError α := fun w =>
    let (result, lines) := work (get w.rest)
    (result, { w with rest := set lines w.rest })
  { start := fun settings => carryOut fun r =>
      let (outcome, r) := r.start settings
      (.ok outcome, r)
    runModule := fun name code => carryOut (LineRuntime.runModule name code)
    addCodeBundle := fun location => carryOut (LineRuntime.addCodeBundle location)
    runScript := fun name source => carryOut (LineRuntime.runScript name source)
    finalize := fun w => (.ok (), { w with rest := set (get w.rest).finalize w.rest }) }

end HostedRuntime

/-- Which compiled modules have run and which have failed. -/
structure ModuleReport where
  executed : List String
  failed : List String
  deriving DecidableEq, Repr

namespace Archive

/-- Where a code bundle is found: the path of the container and a position in its file. -/
def bundleLocation (a : Archive) (offset : UInt32) : String :=
  s!"{a.path.text}?{a.baseOffset + offset.toNat}"

variable {τ : Type}

variable [Zlib.Inflater]

/-- The payload of an entry, with errors seen as errors of the runtime. -/
def runtimePayload (a : Archive) (r : Record) : Effect τ RuntimeError Bytes :=
  .onFiles .archive (a.payload r)

/-- Runs the compiled modules among some entries. -/
def runModulesAmong (a : Archive) (runtime : HostedRuntime τ) (report : ModuleReport) :
    List (Except Malformation Record) → Effect τ RuntimeError ModuleReport
  | [] => return report
  | .error m :: _ => throw (.archive (.plain (.malformed m)))
  | .ok r :: rest => do
    if !r.kind.isBootstrap then runModulesAmong a runtime report rest
    else
      let code ← a.runtimePayload r
      match ← (runtime.runModule r.name code).outcome with
      | .ok () =>
        runModulesAmong a runtime { report with executed := report.executed ++ [r.name] } rest
      | .error _ =>
        runModulesAmong a runtime { report with failed := report.failed ++ [r.name] } rest

/-- Runs all compiled modules. One that fails is passed over. -/
def runModules (a : Archive) (runtime : HostedRuntime τ) : Effect τ RuntimeError ModuleReport :=
  a.runModulesAmong runtime ⟨[], []⟩ a.entries

/-- Adds the code bundles among some entries and counts them. -/
def addBundlesAmong (a : Archive) (runtime : HostedRuntime τ) (count : Nat) :
    List (Except Malformation Record) → Effect τ RuntimeError Nat
  | [] => return count
  | .error m :: _ => throw (.archive (.plain (.malformed m)))
  | .ok r :: rest => do
    if r.kind ≠ .codeBundle then addBundlesAmong a runtime count rest
    else
      runtime.addCodeBundle (a.bundleLocation r.offset)
      addBundlesAmong a runtime (count + 1) rest

/-- Adds all code bundles to the module search path and counts them. -/
def addBundles (a : Archive) (runtime : HostedRuntime τ) : Effect τ RuntimeError Nat :=
  a.addBundlesAmong runtime 0 a.entries

/-- Runs the scripts among some entries and counts them. -/
def runScriptsAmong (a : Archive) (runtime : HostedRuntime τ) (count : Nat) :
    List (Except Malformation Record) → Effect τ RuntimeError Nat
  | [] => return count
  | .error m :: _ => throw (.archive (.plain (.malformed m)))
  | .ok r :: rest => do
    if r.kind ≠ .script then runScriptsAmong a runtime count rest
    else
      let source ← a.runtimePayload r
      runtime.runScript r.name source
      runScriptsAmong a runtime (count + 1) rest

/-- Runs the scripts up to the first that fails and counts them. -/
def runScripts (a : Archive) (runtime : HostedRuntime τ) : Effect τ RuntimeError Nat :=
  a.runScriptsAmong runtime 0 a.entries

end Archive

end Stowage
