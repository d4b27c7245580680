import Stowage.Hosted.Error
import Stowage.Hosted.Layout
/-!
# Talking to a runtime

A runtime is driven through its entry points. A call is a value (`EntryCall`) whose type says what
its answer looks like, and a piece of work on a runtime is a tree (`Dialogue`): it is done, or it
makes a call and goes on in a way that depends on the answer. What holds on every path of the tree
holds for every runtime, whatever it answers.

The entry points work on a record in memory. A call passes the words of the record and the answer
brings back what the entry point has made of them.
-/

namespace Stowage

/-- An object or a text of the runtime, known by its address, which is not null. -/
abbrev Pointer := Nat

/-- The words of 32 bits that a record in memory is made of. -/
abbrev Words := List UInt32

/-- The record that prepares the start of a runtime. -/
structure PreConfig where
  configInit : Int32
  parseArgv : Int32
  isolated : Int32
  useEnvironment : Int32
  configureLocale : Int32
  coerceLocale : Int32
  coerceLocaleWarn : Int32
  utf8Mode : Int32
  developerMode : Int32
  allocator : Int32
  deriving DecidableEq, Repr, Inhabited

/-- What an answer of an entry point consists of. -/
inductive AnswerShape where
  /-- Nothing. -/
  | done
  | status
  /-- A status and the words of the record. -/
  | statusAndRecord
  | record
  | preConfig
  /-- An object or a text, or null. -/
  | pointer
  | number
  deriving DecidableEq, Repr

namespace AnswerShape

/-- The answers of a shape. -/
abbrev Answer : AnswerShape → Type
  | done => Unit
  | status => Status
  | statusAndRecord => Status × Words
  | record => Words
  | preConfig => PreConfig
  | pointer => Option Pointer
  | number => Int32

end AnswerShape

/-- A call of an entry point, with the shape of its answer. -/
inductive EntryCall : AnswerShape → Type where
  /-- Marks the runtime as embedded. -/
  | setFrozenFlag : EntryCall .done
  | releaseObject (object : Pointer) : EntryCall .done
  | decodeLocale (text : String) : EntryCall .pointer
  | freeText (text : Pointer) : EntryCall .done
  | isolatedPreConfig : EntryCall .preConfig
  | preInitialize (config : PreConfig) : EntryCall .status
  | isolatedConfig (record : Words) : EntryCall .record
  | clearConfig (record : Words) : EntryCall .done
  | setString (record : Words) (offset : Nat) (value : String) : EntryCall .statusAndRecord
  | setArgv (record : Words) (args : List String) : EntryCall .statusAndRecord
  | appendText (record : Words) (offset : Nat) (text : Pointer) : EntryCall .statusAndRecord
  | initializeFromConfig (record : Words) : EntryCall .status
  | finalize : EntryCall .number
  | compile (source : Bytes) (file : String) (start : Int32) : EntryCall .pointer
  | evaluate (code : Pointer) (globals locals : Option Pointer) : EntryCall .pointer
  | addModule (name : String) : EntryCall .pointer
  | executeModule (name : String) (code : Pointer) : EntryCall .pointer
  | moduleDict (module : Pointer) : EntryCall .pointer
  | readObject (bytes : Bytes) : EntryCall .pointer
  | errorOccurred : EntryCall .number
  | printError : EntryCall .done
  | clearError : EntryCall .done
  | getSysObject (name : String) : EntryCall .pointer
  | setSysObject (name : String) (value : Pointer) : EntryCall .number
  | setAttribute (object : Pointer) (name : String) (value : Pointer) : EntryCall .number
  | appendItem (list item : Pointer) : EntryCall .number
  | makeLong (value : Int64) : EntryCall .pointer
  | decodeFileName (text : String) : EntryCall .pointer
  | isInitialized : EntryCall .number
  deriving Repr

/-- The names of the entry points that a runtime library must have, in the order in which they are
looked up. -/
def requiredSymbols : List String :=
  ["Py_DecRef", "Py_DecodeLocale", "PyMem_RawFree", "PyPreConfig_InitIsolatedConfig",
    "Py_PreInitialize", "PyConfig_InitIsolatedConfig", "PyConfig_Clear", "PyConfig_SetBytesString",
    "PyConfig_SetBytesArgv", "PyWideStringList_Append", "Py_InitializeFromConfig",
    "Py_FinalizeEx", "Py_CompileString", "PyEval_EvalCode", "PyImport_AddModule",
    "PyImport_ExecCodeModule", "PyModule_GetDict", "PyMarshal_ReadObjectFromString",
    "PyErr_Occurred", "PyErr_Print", "PyErr_Clear", "PySys_GetObject", "PySys_SetObject",
    "PyObject_SetAttrString", "PyList_Append", "PyLong_FromLong", "PyUnicode_DecodeFSDefault"]

/-- The flag that marks a runtime as embedded. Newer runtimes have none. -/
def frozenFlagSymbol : String := "Py_FrozenFlag"

/-- The entry point that tells whether a runtime is running. -/
def isInitializedSymbol : String := "Py_IsInitialized"

/-- The names of the entry points that a runtime library may lack. -/
def optionalSymbols : List String := [frozenFlagSymbol, isInitializedSymbol]

/-- A piece of work on a runtime. -/
inductive Dialogue (α : Type) where
  | done (result : α)
  | ask {shape : AnswerShape} (call : EntryCall shape) (next : shape.Answer → Dialogue α)

namespace Dialogue

/-- Goes on with the result of a piece of work. -/
def andThen {α β : Type} : Dialogue α → (α → Dialogue β) → Dialogue β
  | done a, f => f a
  | ask c next, f => ask c fun answer => (next answer).andThen f

instance : Monad Dialogue where
  pure := done
  bind := andThen

theorem andThen_done {α : Type} (d : Dialogue α) : d.andThen done = d := by
  induction d with
  | done a => rfl
  | ask c next ih => simp [andThen, ih]

theorem andThen_assoc {α β γ : Type} (d : Dialogue α) (f : α → Dialogue β)
    (g : β → Dialogue γ) : (d.andThen f).andThen g = d.andThen fun a => (f a).andThen g := by
  induction d with
  | done a => rfl
  | ask c next ih => simp [andThen, ih]

instance : LawfulMonad Dialogue :=
  LawfulMonad.mk' _ andThen_done (fun _ _ => rfl) andThen_assoc

/-- What answers the calls, with a state of its own. -/
abbrev Responder (σ : Type) :=
  {shape : AnswerShape} → EntryCall shape → σ → shape.Answer × σ

/-- Carries out a piece of work on a runtime. -/
def run {σ α : Type} (respond : Responder σ) : Dialogue α → σ → α × σ
  | done a, s => (a, s)
  | ask c next, s =>
    let (answer, s) := respond c s
    (next answer).run respond s

end Dialogue

end Stowage
