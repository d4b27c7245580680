import Stowage.Environment.Basic
import Stowage.Files.Call
/-!
# The world of a process

What a process can change: the file system, its environment, and whatever else its collaborators
keep. An effect changes the world and gives a result or an error; what it has changed before an
error stays changed.
-/

namespace Stowage

/-- What a process can change. -/
structure World (τ : Type) where
  files : FileSystem
  env : Environment
  rest : τ

/-- A computation on a world that may fail with an error of type `ε`. -/
abbrev Effect (τ ε α : Type) := ExceptT ε (StateM (World τ)) α

namespace Effect

variable {τ ε ε' α : Type}

/-- Carries out an effect: its result, and the world that it leaves. -/
def apply (e : Effect τ ε α) (w : World τ) : Except ε α × World τ :=
  (e.run.run w : Id _)

/-- What a function of the world says, without changing anything. -/
def ask (f : World τ → α) : Effect τ ε α :=
  fun w => (.ok (f w), w)

/-- Changes the world. -/
def change (f : World τ → World τ) : Effect τ ε Unit :=
  fun w => (.ok (), f w)

/-- Changes what the collaborators keep. -/
def changeRest (f : τ → τ) : Effect τ ε Unit :=
  change fun w => { w with rest := f w.rest }

/-- A call on the file system, with its errors seen as errors of another type. -/
def onFiles (f : ε → ε') (c : FileSystem.Call ε α) : Effect τ ε' α :=
  fun w => ((c w.files).1.mapError f, { w with files := (c w.files).2 })

/-- An effect whose errors are seen as errors of another type. -/
def withError (f : ε → ε') (e : Effect τ ε α) : Effect τ ε' α :=
  fun w => ((e w).1.mapError f, (e w).2)

/-- An effect whose outcome, be it an error, is handed on as a value. -/
def outcome (e : Effect τ ε α) : Effect τ ε' (Except ε α) :=
  fun w => (.ok (e w).1, (e w).2)

end Effect

end Stowage
