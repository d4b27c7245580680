import Stowage.Hosted.Configuration
import Stowage.Hosted.Library
/-!
# Bound runtimes

A runtime is bound when its library is loaded and its entry points are known. It is driven by five
operations: start, run a module, add a code bundle, run a script, and finalize. Only between a
successful start and `finalize` does the runtime get any call from the middle three.

Objects that a call returns anew are released once, before the operation ends; borrowed ones are
not. An error that the runtime has pending is reported or dropped before the operation ends.
-/

namespace Stowage

/-- A runtime with known entry points. -/
structure BoundRuntime where
  library : RuntimeLibrary
  version : UInt32
  home : Path
  isStarted : Bool
  deriving DecidableEq, Repr, Inhabited

/-- Work on a bound runtime that may fail. -/
abbrev Hosted := ExceptT RuntimeError (StateT BoundRuntime Dialogue)

namespace Hosted

/-- Makes a call. -/
def ask {shape : AnswerShape} (call : EntryCall shape) : Hosted shape.Answer :=
  fun r => .ask call fun answer => .done (.ok answer, r)

/-- Fails with an error. -/
def fail {α : Type} (e : RuntimeError) : Hosted α := throw e

/-- A text that can be passed in a call. -/
def pass (text : String) : Hosted String := fun r => .done (Filling.passable text, r)

/-- The runtime as it is. -/
def current : Hosted BoundRuntime := fun r => .done (.ok r, r)

/-- Changes what is known of the runtime. -/
def change (f : BoundRuntime → BoundRuntime) : Hosted Unit := fun r => .done (.ok (), f r)

/-- Lets the runtime print the error that is pending, if there is one. -/
def reportError : Hosted Unit := do
  if (← ask .errorOccurred) ≠ 0 then ask .printError

/-- Drops the error that is pending, if there is one. -/
def dropError : Hosted Unit := do
  if (← ask .errorOccurred) ≠ 0 then ask .clearError

/-- Fails because of a call, after dropping what is pending. -/
def dropAndFail {α : Type} (fault : CallFault) : Hosted α := do
  dropError
  fail (.callFailed fault)

/-- Fails unless the runtime is running. -/
def requireStarted : Hosted Unit := do
  if !(← current).isStarted then fail .notStarted

end Hosted

namespace BoundRuntime

open Hosted

/-- Loads a library and binds its entry points. The version is checked first. -/
def load (dirs : List Path) (name : String) (version : UInt32) :
    FileSystem.Call RuntimeError BoundRuntime := do
  if !Layout.isSupported version then throw (.unsupportedVersion version)
  let library ← RuntimeLibrary.load dirs name
  match library.missing? with
  | some symbol => throw (.missingSymbol symbol)
  | none => return ⟨library, version, .empty, false⟩

/-- Whether the runtime has the flag that marks it as embedded. -/
def hasFrozenFlag (r : BoundRuntime) : Bool := r.library.exports.contains frozenFlagSymbol

/-- Whether the runtime can tell that it is running. -/
def canTellState (r : BoundRuntime) : Bool := r.library.exports.contains isInitializedSymbol

/-! ### Start -/

/-- The record for the preparation of a start. -/
def preConfigFor (o : RuntimeOptions) (isolated : PreConfig) : PreConfig :=
  { isolated with
    configureLocale := 1
    utf8Mode := match o.utf8Mode with
      | some utf8 => if utf8 then 1 else 0
      | none => isolated.utf8Mode
    developerMode := if o.developerMode then 1 else 0 }

/-- Prepares the start. -/
def prepare (settings : StartSettings) : Hosted Unit := do
  let isolated ← ask .isolatedPreConfig
  let status ← ask (.preInitialize (preConfigFor settings.options isolated))
  if !status.isOk then fail (.preStart status)

/-- Gives a new object a name in the `sys` module and releases it. -/
def setMarker (name : String) (object : Option Pointer) (fault : CallFault) : Hosted Unit := do
  match object with
  | none => dropAndFail fault
  | some value =>
    let code ← ask (.setSysObject name value)
    -- the module keeps a reference of its own
    ask (.releaseObject value)
    if code ≠ 0 then dropAndFail fault

/-- Tells the programs in the runtime that they are packaged, and where. -/
def setMarkers (home : Path) : Hosted Unit := do
  let home ← pass home.text
  setMarker "frozen" (← ask (.makeLong 1)) .frozenMarker
  setMarker "_bootpack_home" (← ask (.decodeFileName home)) .homeMarker

/-- Starts the runtime. -/
def start (settings : StartSettings) : Hosted StartOutcome := do
  let r ← current
  if r.hasFrozenFlag then ask .setFrozenFlag
  prepare settings
  let configured ← (withConfiguration r.version settings fun record =>
    .ask (.initializeFromConfig record) .done : Dialogue (Except RuntimeError Status))
  match configured with
  | .error e => fail e
  | .ok status =>
    if status.isExit then return .exit status.exitCode
    if !status.isOk then fail (.start status)
    change fun r => { r with isStarted := true, home := settings.home }
    setMarkers settings.home
    return .running

/-! ### Work of a running runtime -/

/-- Runs compiled code as a module. -/
def runModule (name : String) (code : Bytes) : Hosted Unit := do
  requireStarted
  let name ← pass name
  match ← ask (.readObject code) with
  | none =>
    reportError
    fail (.moduleFailed name)
  | some object =>
    let module ← ask (.executeModule name object)
    ask (.releaseObject object)
    match module with
    | none =>
      reportError
      fail (.moduleFailed name)
    | some module => ask (.releaseObject module)

/-- Adds a bundle of compiled code to the end of the module search path. -/
def addCodeBundle (location : String) : Hosted Unit := do
  requireStarted
  let location ← pass location
  match ← ask (.getSysObject "path") with
  | none => fail (.callFailed .noSearchPath)
  | some searchPath =>
    match ← ask (.decodeFileName location) with
    | none => dropAndFail (.undecodableBundle location)
    | some entry =>
      let code ← ask (.appendItem searchPath entry)
      ask (.releaseObject entry)
      if code ≠ 0 then dropAndFail (.bundleNotAdded location)

/-- The token with which source text is compiled as a whole file. -/
def fileInput : Int32 := 257

/-- Source text that can be passed in a call. -/
def passSource (name : String) (source : Bytes) : Hosted Bytes :=
  if source.contains 0 then fail (.nulInText s!"source of {name}") else pure source

/-- Tells a script which file it comes from. That this fails is of no consequence. -/
def setFileName (main : Pointer) (file : String) : Hosted Unit := do
  match ← ask (.decodeFileName file) with
  | none => dropError
  | some value =>
    if (← ask (.setAttribute main "__file__" value)) ≠ 0 then dropError
    ask (.releaseObject value)

/-- Runs compiled code in the main module and releases the code. -/
def evaluateIn (main code : Pointer) (name : String) : Hosted Unit := do
  let globals ← ask (.moduleDict main)
  let result ← ask (.evaluate code globals globals)
  ask (.releaseObject code)
  match result with
  | none =>
    reportError
    fail (.scriptFailed name)
  | some result => ask (.releaseObject result)

/-- Runs source text in the main module. -/
def runScript (name : String) (source : Bytes) : Hosted Unit := do
  requireStarted
  let source ← passSource name source
  let file ← pass ((← current).home.join ⟨s!"{name}.py"⟩).text
  match ← ask (.compile source file fileInput) with
  | none =>
    reportError
    fail (.scriptFailed name)
  | some code =>
    match ← ask (.addModule "__main__") with
    | none =>
      ask (.releaseObject code)
      reportError
      fail (.callFailed .noMainModule)
    | some main =>
      setFileName main file
      evaluateIn main code name

/-- Shuts the runtime down, if it has been started and is still running. -/
def finalize : Hosted Unit := do
  let r ← current
  if !r.isStarted then return
  -- the runtime counts as stopped whatever it answers below
  change ({ · with isStarted := false })
  if r.canTellState then
    if (← ask .isInitialized) = 0 then return
  let _ ← ask .finalize

end BoundRuntime

end Stowage
