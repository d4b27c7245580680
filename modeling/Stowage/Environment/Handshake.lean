import Stowage.Environment.Basic
/-!
# Messages and policies carried by the environment

A process that has extracted an archive tells the copy of itself that it starts where the files
are; a process that replaces itself marks the replacement. Both messages travel as environment
variables (`Handshake`). The extraction policy and the logging settings are read from the
environment as well.
-/

namespace Stowage

/-- Whether extraction may replace what exists. A strict policy refuses to. -/
structure UnpackPolicy where
  strict : Bool
  deriving DecidableEq, Repr, Inhabited

namespace UnpackPolicy

/-- The variable that asks for the strict policy. -/
def strictVariable : String := "BOOTPACK_STRICT_UNPACK_MODE"

/-- The policy that the environment asks for; lenient unless told otherwise. -/
def fromEnvironment (env : Environment) : UnpackPolicy :=
  ⟨env.flag strictVariable [] false⟩

end UnpackPolicy

/-- The message from a launcher process to the one that it starts or becomes. -/
structure Handshake where
  /-- The directory into which an earlier process has extracted the archive. -/
  extractDir : Option Path
  /-- The process has replaced itself to pick up a changed library path. -/
  restarted : Bool
  deriving DecidableEq, Repr, Inhabited

namespace Handshake

/-- The variable that names the extraction directory. -/
def extractDirVariable : String := "BOOTPACK_EXTRACT_DIR"

/-- The variable that marks a process which has replaced itself. -/
def restartedVariable : String := "BOOTPACK_RESTARTED"

/-- The message that says nothing. -/
def none : Handshake := ⟨.none, false⟩

/-- The message found in an environment. A blank restart marker counts as absent, and so does an
empty directory. -/
def fromEnvironment (env : Environment) : Handshake where
  extractDir := env.path? extractDirVariable
  restarted := (env.optional restartedVariable []).isSome

/-- The message for a copy that runs from an extraction directory. -/
def forChild (dir : Path) : Handshake := ⟨some dir, false⟩

/-- The message for a process that replaces itself. -/
def forRestart : Handshake := ⟨.none, true⟩

/-- Whether an earlier process has extracted already. -/
def isChild (h : Handshake) : Bool := h.extractDir.isSome

/-- The variables that carry the message, with their values. -/
def pairs (h : Handshake) : List (String × String) :=
  (match h.extractDir with
    | some dir => [(extractDirVariable, dir.text)]
    | .none => []) ++
  if h.restarted then [(restartedVariable, "1")] else []

/-- The environment without any message. -/
def clear (env : Environment) : Environment :=
  (env.unset extractDirVariable).unset restartedVariable

theorem fromEnvironment_clear (env : Environment) : fromEnvironment (clear env) = none := by
  have hd : (clear env).read? extractDirVariable = .none := by
    rw [Environment.read?_eq_get? _ (by decide)]
    simp [clear, show extractDirVariable ≠ restartedVariable by decide]
  have hr : (clear env).read? restartedVariable = .none := by
    rw [Environment.read?_eq_get? _ (by decide)]
    simp [clear]
  simp [fromEnvironment, none, Environment.path?, hd, Environment.optional,
    Environment.firstSet, hr]

end Handshake

/-- The logging settings. -/
structure Logging where
  quiet : Bool
  level : String
  json : Bool
  deriving DecidableEq, Repr, Inhabited

namespace Logging

/-- The filter used when none is asked for: warnings and errors. -/
def defaultLevel : String := "bootpack=warn"

/-- The logging settings that the environment asks for. -/
def fromEnvironment (env : Environment) : Logging where
  quiet := env.flag "BOOTPACK_QUIET" [] false
  level := env.valueOr "BOOTPACK_LOG_LEVEL" [] defaultLevel
  json := env.flag "BOOTPACK_LOG_JSON" [] false

/-- The filter in force. A quiet program ignores the level asked for. -/
def directive (l : Logging) : String :=
  if l.quiet then defaultLevel else l.level

end Logging

end Stowage
