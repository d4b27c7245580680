import Stowage.Environment.Basic
import Stowage.Hosted.Bound
import Stowage.Process.Ending
import Stowage.Text.Number
/-!
# A simulated runtime

The simulation answers every call of an entry point and keeps a trace of the calls. Objects are
numbered as they are made. Rules make single calls fail. With directives switched on, a script may
begin with lines that show a variable of the environment or end the process; after the end nothing
is recorded.
-/

namespace Stowage

/-- What a trace consists of. -/
inductive TraceItem where
  | null
  | number (value : Int)
  | text (value : String)
  | list (items : List TraceItem)
  deriving Repr, Inhabited

/-- Makes calls of one entry point fail, or only the `nth` of them if `nth` is not zero. -/
structure SimulationRule where
  function : String
  nth : Nat
  status : Status
  deriving Repr

/-- The state of a simulated runtime. -/
structure Simulation where
  rules : List SimulationRule
  /-- How often each entry point has been called. -/
  counts : List (String × Nat)
  /-- The number of the object made last. -/
  lastObject : Nat
  hasPendingError : Bool
  isInitialized : Bool
  /-- The flag that marks the runtime as embedded, if it has one. -/
  frozenFlag : Option Int32
  /-- The size of the configuration record that the runtime works with. -/
  recordSize : Nat
  /-- Whether lines at the start of a script are directives. -/
  obeysDirectives : Bool
  /-- How the process has ended, if it has. -/
  ended : Option ProcessEnd
  /-- The calls so far, the last one first. -/
  trace : List TraceItem
  deriving Repr, Inhabited

namespace Simulation

/-- A runtime that has not been called yet. -/
def fresh (rules : List SimulationRule) (recordSize : Nat) (obeysDirectives : Bool) :
    Simulation :=
  ⟨rules, [], 0, false, false, none, recordSize, obeysDirectives, none, []⟩

/-- The runtime as reached through a library with the given exports: the frozen flag is the
library's own, and is clear until it is set. -/
def onLoad (exports : List String) (s : Simulation) : Simulation :=
  { s with frozenFlag := if exports.contains frozenFlagSymbol then some 0 else none }

/-- The calls in the order in which they were made. -/
def calls (s : Simulation) : List TraceItem := s.trace.reverse

/-! ### Objects -/

/-- The main module. -/
def mainModule : Pointer := 0x8000000000000000

/-- The names of the main module. -/
def mainDict : Pointer := 0x8000000000000001

/-- The module search path. -/
def searchPath : Pointer := 0x8000000000000002

/-- How an object is written in a trace. -/
def showPointer (p : Pointer) : TraceItem :=
  if p = mainModule then .text "main"
  else if p = mainDict then .text "dict"
  else if p = searchPath then .text "path"
  else .text s!"h{p}"

/-- How an object or null is written in a trace. -/
def showAnswer : Option Pointer → TraceItem
  | some p => showPointer p
  | none => .null

/-- How a number is written in a trace. -/
def showInt (n : Int32) : TraceItem := .number n.toInt

/-! ### Rules -/

/-- Counts a call and looks for the first rule that applies to it. -/
def count (function : String) (s : Simulation) : Option SimulationRule × Simulation :=
  let n := (s.counts.lookup function).getD 0 + 1
  (s.rules.find? fun r => r.function = function ∧ (r.nth = 0 ∨ r.nth = n),
    { s with counts := (function, n) :: s.counts.filter (·.1 != function) })

/-- Adds a call to the trace, unless the process has ended. -/
def record (function : String) (items : List TraceItem) (s : Simulation) : Simulation :=
  if s.ended.isSome then s
  else { s with trace := .list (.text function :: items) :: s.trace }

/-- Makes the next object. -/
def make (s : Simulation) : Pointer × Simulation :=
  (s.lastObject + 1, { s with lastObject := s.lastObject + 1 })

/-- Marks an error as pending. -/
def raise (s : Simulation) : Simulation := { s with hasPendingError := true }

/-- Answers a call that gives a new object or fails, and passes the answer on to be recorded. -/
def answerNew (function : String) (raises : Bool) (args : List TraceItem) (s : Simulation) :
    Option Pointer × Simulation :=
  match s.count function with
  | (some _, s) =>
    (none, (if raises then s.raise else s).record function (args ++ [.null]))
  | (none, s) =>
    let (p, s) := s.make
    (some p, s.record function (args ++ [showPointer p]))

/-- Answers a call that gives a lasting object or fails. -/
def answerLasting (function : String) (raises : Bool) (object : Pointer) (args : List TraceItem)
    (s : Simulation) : Option Pointer × Simulation :=
  match s.count function with
  | (some _, s) =>
    (none, (if raises then s.raise else s).record function (args ++ [.null]))
  | (none, s) => (some object, s.record function (args ++ [showPointer object]))

/-- Answers a call that gives zero, or minus one with an error pending. -/
def answerCode (function : String) (args : List TraceItem) (s : Simulation) :
    Int32 × Simulation :=
  match s.count function with
  | (some _, s) => (-1, s.raise.record function (args ++ [showInt (-1)]))
  | (none, s) => (0, s.record function (args ++ [showInt 0]))

/-- The status of a call, given by the rule that applies to it. -/
def statusOf (function : String) (s : Simulation) : Status × Simulation :=
  match s.count function with
  | (some rule, s) => (rule.status, s)
  | (none, s) => (.success, s)

/-! ### The record -/

/-- The word in which every bit is one. -/
def blankWord : UInt32 := 0xffffffff

/-- The record as an isolated configuration leaves it. -/
def blankRecord (size : Nat) (record : Words) : Words :=
  List.replicate (min (size / 4) record.length) blankWord ++ record.drop (size / 4)

/-- The record in which an address has been stored. -/
def storePointer (record : Words) (offset : Nat) (p : Pointer) : Words :=
  Words.setLong record offset p.toUInt64

/-- The record in which the length of a list has grown by one. -/
def growList (record : Words) (offset : Nat) : Words :=
  let word (i : Nat) : UInt64 := (record.getD i 0).toUInt64
  Words.setLong record offset (word (offset / 4) + word (offset / 4 + 1) <<< 32 + 1)

/-- The words of a record that are not blank, with their offsets. -/
def showRecord (size : Nat) (record : Words) : TraceItem :=
  .list (((record.take (size / 4)).zipIdx.filter (·.1 ≠ blankWord)).map fun (w, i) =>
    .list [.number (4 * i : Nat), .number w.toNat])

/-- The numbers of a preparation record as an isolated configuration leaves them. -/
def isolatedPre : PreConfig := ⟨-1, -2, -3, -4, -5, -6, -7, -8, -9, -10⟩

/-- How a preparation record is written in a trace. -/
def showPre (p : PreConfig) : TraceItem :=
  .list ([p.configInit, p.parseArgv, p.isolated, p.useEnvironment, p.configureLocale,
    p.coerceLocale, p.coerceLocaleWarn, p.utf8Mode, p.developerMode, p.allocator].map showInt)

/-! ### Directives -/

/-- Obeys one directive. -/
def obey (env : Environment) (s : Simulation) (line : String) : Simulation :=
  if s.ended.isSome then s
  else match Text.splitOnce ' ' line with
    | some ("!env", name) =>
      let value := match env.get? name with
        | some v => TraceItem.text v
        | none => .null
      s.record name [value]
    | some ("!exit", code) =>
      let number : Option Int := match code.toList with
        | '-' :: digits => (Text.readNat? digits).map fun n => - (n : Int)
        | digits => (Text.readNat? digits).map fun n => (n : Int)
      { s with ended := number.map .ofCode }
    | some ("!kill", number) =>
      { s with ended := ((Text.readNat? number.toList).filter Signal.endsProcess).map .signal }
    | _ => s

/-- The lines at the start of a script that are directives. -/
def directives (source : String) : List String :=
  ((source.toList.splitOn '\n').map String.ofList).takeWhile (·.startsWith "!")

/-- How a byte is written inside a line that shows a call. -/
def rawByte (b : UInt8) : Bytes :=
  if b = 34 then [92, 34]
  else if b = 92 then [92, 92]
  else if b < 32 then Text.encode ("\\u00" ++ Text.hexPairs [b])
  else [b]

/-- How bytes are written inside a line that shows a call. -/
def rawQuoted (bytes : Bytes) : Bytes :=
  34 :: bytes.flatMap rawByte ++ [34]

/-- The line that shows the compilation of bytes that are no text. -/
def rawCompileLine (source : Bytes) (file : String) (start : Int32) (object : Option Pointer) :
    Bytes :=
  Text.encode "[\"Py_CompileString\"," ++ rawQuoted source ++ Text.encode "," ++
    rawQuoted (Text.encode file) ++ Text.encode s!",{start.toInt}," ++
    match object with
    | some p => Text.encode s!"\"h{p}\"]"
    | none => Text.encode "null]"

/-- Compiles source text. Text that is not UTF-8 is recorded as the bytes of the whole call. -/
def answerCompile (env : Environment) (source : Bytes) (file : String) (start : Int32)
    (s : Simulation) : Option Pointer × Simulation :=
  let s := match Text.decode? source with
    | some text => if s.obeysDirectives then (directives text).foldl (obey env) s else s
    | none => s
  let function := "Py_CompileString"
  let rest (object : Option Pointer) : List TraceItem :=
    [.text file, showInt start, showAnswer object]
  let (object, counted) := match s.count function with
    | (some _, s) => (none, s.raise)
    | (none, s) =>
      let (p, s) := s.make
      (some p, s)
  match Text.decode? source with
  | some text => (object, counted.record function (.text text :: rest object))
  | none =>
    let item := TraceItem.text (Text.hexPairs (rawCompileLine source file start object))
    (object, if counted.ended.isSome then counted
      else { counted with trace := item :: counted.trace })

/-! ### Answers -/

/-- Answers a call. -/
def respond (env : Environment) : Dialogue.Responder Simulation
  | _, .setFrozenFlag, s => ((), { s with frozenFlag := s.frozenFlag.map fun _ => 1 })
  | _, .releaseObject p, s => ((), s.record "Py_DecRef" [showPointer p])
  | _, .decodeLocale text, s => s.answerNew "Py_DecodeLocale" false [.text text]
  | _, .freeText p, s => ((), s.record "PyMem_RawFree" [showPointer p])
  | _, .isolatedPreConfig, s => (isolatedPre, s.record "PyPreConfig_InitIsolatedConfig" [])
  | _, .preInitialize p, s =>
    let (status, s) := s.statusOf "Py_PreInitialize"
    (status, s.record "Py_PreInitialize"
      [showPre p, showInt (s.frozenFlag.getD (-1)), showInt status.type])
  | _, .isolatedConfig record, s =>
    (blankRecord s.recordSize record, s.record "PyConfig_InitIsolatedConfig" [])
  | _, .clearConfig _, s => ((), s.record "PyConfig_Clear" [.number 0])
  | _, .setString record offset value, s =>
    let (status, s) := s.statusOf "PyConfig_SetBytesString"
    let (after, s) :=
      if status.isOk then
        let (p, s) := s.make
        (storePointer record offset p, s)
      else (record, s)
    ((status, after), s.record "PyConfig_SetBytesString"
      [.number offset, .text value, showInt status.type])
  | _, .setArgv record args, s =>
    let (status, s) := s.statusOf "PyConfig_SetBytesArgv"
    ((status, record), s.record "PyConfig_SetBytesArgv"
      [.list (args.map .text), showInt status.type])
  | _, .appendText record offset text, s =>
    let (status, s) := s.statusOf "PyWideStringList_Append"
    ((status, if status.isOk then growList record offset else record),
      s.record "PyWideStringList_Append"
        [.number offset, showPointer text, showInt status.type])
  | _, .initializeFromConfig record, s =>
    let (status, s) := s.statusOf "Py_InitializeFromConfig"
    let s := if status.isOk then { s with isInitialized := true } else s
    (status, s.record "Py_InitializeFromConfig"
      [showRecord s.recordSize record, showInt status.type])
  | _, .finalize, s =>
    { s with isInitialized := false }.answerCode "Py_FinalizeEx" []
  | _, .compile source file start, s => s.answerCompile env source file start
  | _, .evaluate code globals locals, s =>
    s.answerNew "PyEval_EvalCode" true [showPointer code, showAnswer globals, showAnswer locals]
  | _, .addModule name, s => s.answerLasting "PyImport_AddModule" true mainModule [.text name]
  | _, .executeModule name code, s =>
    s.answerNew "PyImport_ExecCodeModule" true [.text name, showPointer code]
  | _, .moduleDict module, s =>
    (some mainDict, s.record "PyModule_GetDict" [showPointer module, showPointer mainDict])
  | _, .readObject bytes, s =>
    s.answerNew "PyMarshal_ReadObjectFromString" true [.text (Text.hexPairs bytes)]
  | _, .errorOccurred, s =>
    let code : Int32 := if s.hasPendingError then 1 else 0
    (code, s.record "PyErr_Occurred" [showInt code])
  | _, .printError, s => ((), { s with hasPendingError := false }.record "PyErr_Print" [])
  | _, .clearError, s => ((), { s with hasPendingError := false }.record "PyErr_Clear" [])
  | _, .getSysObject name, s => s.answerLasting "PySys_GetObject" false searchPath [.text name]
  | _, .setSysObject name value, s =>
    s.answerCode "PySys_SetObject" [.text name, showPointer value]
  | _, .setAttribute object name value, s =>
    s.answerCode "PyObject_SetAttrString" [showPointer object, .text name, showPointer value]
  | _, .appendItem list item, s =>
    s.answerCode "PyList_Append" [showPointer list, showPointer item]
  | _, .makeLong value, s => s.answerNew "PyLong_FromLong" true [.number value.toInt]
  | _, .decodeFileName text, s => s.answerNew "PyUnicode_DecodeFSDefault" true [.text text]
  | _, .isInitialized, s =>
    let (rule, s) := s.count "Py_IsInitialized"
    let code : Int32 := if s.isInitialized && rule.isNone then 1 else 0
    (code, s.record "Py_IsInitialized" [showInt code])

end Simulation

end Stowage
