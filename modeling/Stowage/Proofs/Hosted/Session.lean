import Stowage.Proofs.Hosted.Watching

/-!
# Sessions with a runtime

A session is any sequence of the five operations on a bound runtime, whoever answers.  What
is known of it is a list of calls (`HostedCall`), each with the runtime as it was found and
left, the result, and every call of an entry point that was made meanwhile.

What the entry points do is not known here, only what is documented of their answers: which
of them report failure, and how (`Exchange.fails`).
-/

namespace Stowage

/-! ## Operations and sessions -/

/-- The operations of a bound runtime. -/
inductive HostedOperation where
  | start (settings : StartSettings)
  | runModule (name : String) (code : Bytes)
  | addCodeBundle (location : String)
  | runScript (name : String) (source : Bytes)
  | finalize
  deriving DecidableEq

/-- What an operation does.  Only a start has an outcome. -/
def HostedOperation.work : HostedOperation → Hosted (Option StartOutcome)
  | start settings => do return some (← BoundRuntime.start settings)
  | runModule name code => do
    BoundRuntime.runModule name code
    return none
  | addCodeBundle location => do
    BoundRuntime.addCodeBundle location
    return none
  | runScript name source => do
    BoundRuntime.runScript name source
    return none
  | finalize => do
    BoundRuntime.finalize
    return none

/-- One operation in a session: how it found the runtime, what was said, and how it left the
runtime. -/
structure HostedCall (σ : Type) where
  operation : HostedOperation
  found : BoundRuntime
  result : Except RuntimeError (Option StartOutcome)
  left : BoundRuntime
  turns : List (Turn σ)
  before : σ
  after : σ

/-- The calls of entry points in an operation, and the answers. -/
def HostedCall.exchanges {σ : Type} (call : HostedCall σ) : List Exchange :=
  call.turns.map (·.exchange)

section
variable {σ γ : Type}

/-- Carries out one operation. -/
def HostedOperation.carryOut (respond : Dialogue.Responder σ) (operation : HostedOperation)
    (r : BoundRuntime) (s : σ) : HostedCall σ :=
  let talk := operation.work.run.run r
  let ended := talk.run respond s
  ⟨operation, r, ended.1.1, ended.1.2, talk.turns respond s, s, ended.2⟩

/-- Carries out operations one after the other, whatever comes of them. -/
def session (respond : Dialogue.Responder σ) :
    List HostedOperation → BoundRuntime → σ → List (HostedCall σ)
  | [], _, _ => []
  | operation :: rest, r, s =>
    let call := operation.carryOut respond r s
    call :: session respond rest call.left call.after

variable {respond : Dialogue.Responder σ} {operations : List HostedOperation} {r : BoundRuntime}
  {s : σ}

theorem exists_carryOut_of_mem_session {call : HostedCall σ}
    (h : call ∈ session respond operations r s) :
    ∃ operation r' s', call = HostedOperation.carryOut respond operation r' s' := by
  induction operations generalizing r s with
  | nil => cases h
  | cons operation rest ih =>
    rcases List.mem_cons.mp h with rfl | h
    · exact ⟨operation, r, s, rfl⟩
    · exact ih h

/-- What is known of an operation that passes a watch: its calls are accepted, and its result and
the runtime that it leaves are as promised. -/
theorem Watch.Guides.carryOut {w : Watch γ} {g : γ} {operation : HostedOperation}
    {Q : Except RuntimeError (Option StartOutcome) → BoundRuntime → γ → Prop}
    (h : w.Guides operation.work r g Q) (respond : Dialogue.Responder σ) (s : σ) :
    w.Accepts g (operation.carryOut respond r s).exchanges ∧
      Q (operation.carryOut respond r s).result (operation.carryOut respond r s).left
        (w.afterAll g (operation.carryOut respond r s).exchanges) :=
  Watch.Passes.accepts h respond s

end

/-! ## A sample -/

/-- A runtime that has no entry points but the required ones. -/
def sampleRuntime : BoundRuntime := ⟨⟨⟨"/lib"⟩, requiredSymbols⟩, 311, .empty, false⟩

/-- Settings of a start. -/
def sampleSettings : StartSettings := .make ⟨"/a"⟩ ⟨"/h"⟩ ["a"] .none

/-! ## What is documented of the entry points -/

namespace EntryCall
variable {shape : AnswerShape}

/-- A question, whose answer is no report of success or failure. -/
def isQuestion : EntryCall shape → Bool
  | errorOccurred | isInitialized => true
  | _ => false

/-- The call that shuts a runtime down. -/
def shutsDown : EntryCall shape → Bool
  | finalize => true
  | _ => false

/-- Only an initialised runtime can be asked for this. -/
def needsRuntime : EntryCall shape → Bool
  | releaseObject _ | compile .. | evaluate .. | addModule _ | executeModule .. | moduleDict _
  | readObject _ | errorOccurred | printError | clearError | getSysObject _ | setSysObject ..
  | setAttribute .. | appendItem .. | makeLong _ | decodeFileName _ => true
  | _ => false

theorem isQuestion_of_shutsDown {c : EntryCall shape} (h : c.shutsDown = true) :
    c.isQuestion = false := by
  cases c <;> first | rfl | cases h

theorem needsRuntime_of_shutsDown {c : EntryCall shape} (h : c.shutsDown = true) :
    c.needsRuntime = false := by
  cases c <;> first | rfl | cases h

end EntryCall

namespace Exchange

/-- The entry point reports failure: by null, by a status, or by a number that is not zero. -/
def fails : Exchange → Bool
  | @mk .pointer _ answer => answer.isNone
  | @mk .status _ status => !status.isOk
  | @mk .statusAndRecord _ answer => !answer.1.isOk
  | @mk .number call code => !call.isQuestion && code != 0
  | _ => false

/-- A runtime has been initialised. -/
def initializes : Exchange → Bool
  | @mk _ (.initializeFromConfig _) status => status.isOk
  | _ => false

/-- What initialises a runtime needs none, asks nothing and shuts none down. -/
theorem call_of_initializes {e : Exchange} (h : e.initializes = true) :
    e.call.needsRuntime = false ∧ e.call.isQuestion = false ∧ e.call.shutsDown = false := by
  obtain ⟨c, answer⟩ := e
  cases c <;> first | exact ⟨rfl, rfl, rfl⟩ | cases h

end Exchange
end Stowage
