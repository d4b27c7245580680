import Stowage.Proofs.Launch.Effects

/-!
# Recording a launch

What a launch does is seen in what it asks of its surroundings.  This module puts a
recorder between the two: `Surroundings.recorded` hands every call on, and writes down
what was asked, what was answered, and the worlds before and after (`LaunchStep`).

Recording changes nothing: a recorded launch has the same result as a plain one and
leaves the same world, with its steps added to the record (`launch_records`).  So what
a recorded launch writes down is what the plain one does.

`Effect.Records` is the form in which records are reasoned about.  It runs a recorded
effect beside the plain one.
-/

namespace Stowage

open Result

variable {σ τ ε ε' α β : Type}

/-! ## Steps -/

/-- A call of a launch to its surroundings: what it is given, and what is answered. -/
inductive LaunchCall where
  | currentExecutable (argv0 : Option String) (answer : Except LaunchError Path)
  | exposeHome (home : Path) (answer : Except LaunchError Bool)
  | respawn (session : LaunchSession) (handshake : Handshake) (ignoreSignals : Bool)
      (answer : Except LaunchError ChildExit)
  | restart (session : LaunchSession) (answer : Except LaunchError ChildExit)
  | clearHandshake
  | createRuntime (a : Archive) (home : Path) (answer : Except LaunchError Unit)
  | start (settings : StartSettings) (answer : Except RuntimeError StartOutcome)
  | runModule (name : String) (code : Bytes) (answer : Except RuntimeError Unit)
  | addCodeBundle (location : String) (answer : Except RuntimeError Unit)
  | runScript (name : String) (source : Bytes) (answer : Except RuntimeError Unit)
  | finalize
  | extracting (name : String)
  | unhandledError (script : String)

/-- A call, with the world in which it is made and the one that it leaves. -/
structure LaunchStep (τ : Type) where
  call : LaunchCall
  before : World τ
  after : World τ

/-- What the collaborators of a launch keep, and the steps that have been recorded. -/
structure Recorded (τ : Type) where
  rest : τ
  steps : List (LaunchStep τ)

/-- A world with a record of steps. -/
def World.recorded (w : World τ) (steps : List (LaunchStep τ)) : World (Recorded τ) :=
  ⟨w.files, w.env, ⟨w.rest, steps⟩⟩

/-- A world without its record. -/
def World.plain (w : World (Recorded τ)) : World τ := ⟨w.files, w.env, w.rest.rest⟩

@[simp] theorem World.plain_recorded (w : World τ) (steps : List (LaunchStep τ)) :
    (w.recorded steps).plain = w := rfl

@[simp] theorem World.steps_recorded (w : World τ) (steps : List (LaunchStep τ)) :
    (w.recorded steps).rest.steps = steps := rfl

/-- **What happens to files between the steps**, and before the first and after the last of
them: from one to the next they are related by `R`. -/
def Between (R : FileSystem → FileSystem → Prop) : FileSystem → List (LaunchStep τ) →
    FileSystem → Prop
  | fs, [], fs' => R fs fs'
  | fs, step :: rest, fs' => R fs step.before.files ∧ Between R step.after.files rest fs'

namespace Between

variable {R : FileSystem → FileSystem → Prop} {fs fs₁ fs₂ : FileSystem}
  {steps more : List (LaunchStep τ)}

/-- What happens before the first step can be extended. -/
theorem head (hhead : ∀ fs', R fs₁ fs' → R fs fs') (h : Between R fs₁ steps fs₂) :
    Between R fs steps fs₂ := by
  cases steps with
  | nil => exact hhead _ h
  | cons step steps => exact ⟨hhead _ h.1, h.2⟩

/-- Steps that are taken one after the other, where what happens between them can be put
together. -/
theorem append (htrans : ∀ {a b c}, R a b → R b c → R a c) (h : Between R fs steps fs₁)
    (h' : Between R fs₁ more fs₂) : Between R fs (steps ++ more) fs₂ := by
  induction steps generalizing fs with
  | nil => exact h'.head fun _ => htrans h
  | cons step steps ih => exact ⟨h.1, ih h.2⟩

end Between

/-! ## The recorder -/

/-- An effect that is recorded as the given call. -/
def Effect.recorded (call : Except ε α → LaunchCall) (e : Effect τ ε α) :
    Effect (Recorded τ) ε α := fun w =>
  let step : LaunchStep τ := ⟨call (e.apply w.plain).1, w.plain, (e.apply w.plain).2⟩
  ((e.apply w.plain).1, step.after.recorded (w.rest.steps ++ [step]))

/-- A runtime whose calls are recorded. -/
def HostedRuntime.recorded (r : HostedRuntime τ) : HostedRuntime (Recorded τ) where
  start settings := (r.start settings).recorded (.start settings)
  runModule name code := (r.runModule name code).recorded (.runModule name code)
  addCodeBundle location := (r.addCodeBundle location).recorded (.addCodeBundle location)
  runScript name source := (r.runScript name source).recorded (.runScript name source)
  finalize := r.finalize.recorded fun _ => .finalize

/-- Surroundings whose calls are recorded. -/
def Surroundings.recorded (env : Surroundings τ) : Surroundings (Recorded τ) where
  currentExecutable argv0 := (env.currentExecutable argv0).recorded (.currentExecutable argv0)
  exposeHome home := (env.exposeHome home).recorded (.exposeHome home)
  respawn session handshake ignoreSignals :=
    (env.respawn session handshake ignoreSignals).recorded
      (.respawn session handshake ignoreSignals)
  restart session := (env.restart session).recorded (.restart session)
  clearHandshake := env.clearHandshake.recorded fun _ => .clearHandshake
  createRuntime a home := (env.createRuntime a home).recorded (.createRuntime a home)
  runtime := env.runtime.recorded
  extracting name := (env.extracting name).recorded fun _ => .extracting name
  unhandledError script := (env.unhandledError script).recorded fun _ => .unhandledError script

/-! ## Effects with a record -/

namespace Effect

/-- **Run on `w`, a recorded effect does what the plain one does**, and what it adds to
the record, whatever is there already, fulfils `Q`, together with the result and the world
that is left. -/
def Records (e' : Effect (Recorded τ) ε α) (e : Effect τ ε α) (w : World τ)
    (Q : Except ε α → List (LaunchStep τ) → World τ → Prop) : Prop :=
  ∃ steps, (∀ done, e'.apply (w.recorded done) =
      ((e.apply w).1, (e.apply w).2.recorded (done ++ steps))) ∧
    Q (e.apply w).1 steps (e.apply w).2

variable {w : World τ} {Q : Except ε β → List (LaunchStep τ) → World τ → Prop}
  {R : Except ε α → List (LaunchStep τ) → World τ → Prop}

/-- An effect that adds nothing to the record. -/
theorem Records.of_apply {e' : Effect (Recorded τ) ε α} {e : Effect τ ε α}
    (h : ∀ done, e'.apply (w.recorded done) = ((e.apply w).1, (e.apply w).2.recorded done))
    (hq : R (e.apply w).1 [] (e.apply w).2) : Records e' e w R :=
  ⟨[], fun done => by rw [h, List.append_nil], hq⟩

/-- A recorded call is one step. -/
theorem records_recorded (call : Except ε α → LaunchCall) (e : Effect τ ε α) (w : World τ) :
    Records (e.recorded call) e w fun r steps w' =>
      steps = [⟨call r, w, w'⟩] ∧ e.apply w = (r, w') := ⟨_, fun _ => rfl, rfl, rfl⟩

theorem records_pure {a : α} (h : R (.ok a) [] w) :
    Records (pure a : Effect (Recorded τ) ε α) (pure a) w R := .of_apply (fun _ => rfl) h

theorem records_throw {e : ε} (h : R (.error e) [] w) :
    Records (throw e : Effect (Recorded τ) ε α) (throw e) w R := .of_apply (fun _ => rfl) h

theorem records_onFiles {f : ε → ε'} {c : FileSystem.Call ε α}
    {R : Except ε' α → List (LaunchStep τ) → World τ → Prop}
    (h : R ((onFiles f c : Effect τ ε' α).apply w).1 [] ((onFiles f c : Effect τ ε' α).apply w).2) :
    Records (onFiles f c : Effect (Recorded τ) ε' α) (onFiles f c) w R :=
  .of_apply (fun _ => rfl) h

theorem Records.mono {e' : Effect (Recorded τ) ε α} {e : Effect τ ε α}
    {R' : Except ε α → List (LaunchStep τ) → World τ → Prop} (he : Records e' e w R)
    (h : ∀ r steps w', R r steps w' → R' r steps w') : Records e' e w R' :=
  let ⟨steps, hrun, hr⟩ := he
  ⟨steps, hrun, h _ _ _ hr⟩

theorem Records.bind {e' : Effect (Recorded τ) ε α} {e : Effect τ ε α}
    {f' : α → Effect (Recorded τ) ε β} {f : α → Effect τ ε β} (he : Records e' e w R)
    (hok : ∀ a steps w₁, R (.ok a) steps w₁ →
      Records (f' a) (f a) w₁ fun r more w' => Q r (steps ++ more) w')
    (herror : ∀ err steps w₁, R (.error err) steps w₁ → Q (.error err) steps w₁) :
    Records (e' >>= f') (e >>= f) w Q := by
  obtain ⟨steps, hrun, hr⟩ := he
  rw [Records, apply_bind]
  simp only [apply_bind, hrun]
  rcases hw : e.apply w with ⟨r, w₁⟩
  rw [hw] at hr
  cases r with
  | ok a =>
    obtain ⟨more, hrun', hq⟩ := hok a steps w₁ hr
    exact ⟨steps ++ more, fun done => by rw [← List.append_assoc]; exact hrun' _, hq⟩
  | error err => exact ⟨steps, fun _ => rfl, herror err steps w₁ hr⟩

theorem Records.outcome {e' : Effect (Recorded τ) ε α} {e : Effect τ ε α}
    (he : Records e' e w R) : Records (e'.outcome : Effect (Recorded τ) ε' _) e.outcome w
      fun r steps w' => ∃ answer, r = .ok answer ∧ R answer steps w' := by
  obtain ⟨steps, hrun, hr⟩ := he
  exact ⟨steps, fun done => by rw [apply_outcome, hrun]; rfl, _, rfl, hr⟩

end Effect

/-! ## Work with a record -/

namespace Stateful

/-- **Run on `s` and `w`, recorded work does what the plain work does**, and what it adds
to the record, whatever is there already, fulfils `Q`. -/
def Records (m' : Stateful σ (Recorded τ) α) (m : Stateful σ τ α) (s : σ) (w : World τ)
    (Q : Except LaunchError α → σ → List (LaunchStep τ) → World τ → Prop) : Prop :=
  ∃ steps, (∀ done, m'.apply s (w.recorded done) =
      ((m.apply s w).1, (m.apply s w).2.recorded (done ++ steps))) ∧
    Q (m.apply s w).1.1 (m.apply s w).1.2 steps (m.apply s w).2

variable {s : σ} {w : World τ}
  {Q : Except LaunchError β → σ → List (LaunchStep τ) → World τ → Prop}
  {R : Except LaunchError α → σ → List (LaunchStep τ) → World τ → Prop}

theorem Records.of_apply {m' : Stateful σ (Recorded τ) α} {m : Stateful σ τ α}
    (h : ∀ done, m'.apply s (w.recorded done) =
      ((m.apply s w).1, (m.apply s w).2.recorded done))
    (hq : R (m.apply s w).1.1 (m.apply s w).1.2 [] (m.apply s w).2) : Records m' m s w R :=
  ⟨[], fun done => by rw [h, List.append_nil], hq⟩

theorem records_pure {a : α} (h : R (.ok a) s [] w) :
    Records (pure a : Stateful σ (Recorded τ) α) (pure a) s w R := .of_apply (fun _ => rfl) h

theorem records_throw {e : LaunchError} (h : R (.error e) s [] w) :
    Records (throw e : Stateful σ (Recorded τ) α) (throw e) s w R := .of_apply (fun _ => rfl) h

theorem Records.mono {m' : Stateful σ (Recorded τ) α} {m : Stateful σ τ α}
    {R' : Except LaunchError α → σ → List (LaunchStep τ) → World τ → Prop}
    (hm : Records m' m s w R) (h : ∀ r s' steps w', R r s' steps w' → R' r s' steps w') :
    Records m' m s w R' :=
  let ⟨steps, hrun, hr⟩ := hm
  ⟨steps, hrun, h _ _ _ _ hr⟩

theorem Records.bind {m' : Stateful σ (Recorded τ) α} {m : Stateful σ τ α}
    {f' : α → Stateful σ (Recorded τ) β} {f : α → Stateful σ τ β} (hm : Records m' m s w R)
    (hok : ∀ a s₁ steps w₁, R (.ok a) s₁ steps w₁ →
      Records (f' a) (f a) s₁ w₁ fun r s' more w' => Q r s' (steps ++ more) w')
    (herror : ∀ err s₁ steps w₁, R (.error err) s₁ steps w₁ → Q (.error err) s₁ steps w₁) :
    Records (m' >>= f') (m >>= f) s w Q := by
  obtain ⟨steps, hrun, hr⟩ := hm
  rw [Records, apply_bind]
  simp only [apply_bind, hrun]
  rcases hw : m.apply s w with ⟨⟨r, s₁⟩, w₁⟩
  rw [hw] at hr
  cases r with
  | ok a =>
    obtain ⟨more, hrun', hq⟩ := hok a s₁ steps w₁ hr
    exact ⟨steps ++ more, fun done => by rw [← List.append_assoc]; exact hrun' _, hq⟩
  | error err => exact ⟨steps, fun _ => rfl, herror err s₁ steps w₁ hr⟩

/-- The state can be looked at. -/
theorem records_get {f' : σ → Stateful σ (Recorded τ) β} {f : σ → Stateful σ τ β}
    (h : Records (f' s) (f s) s w Q) : Records (get >>= f') (get >>= f) s w Q := h

/-- The state can be changed. -/
theorem records_modify {g : σ → σ} {f' : Unit → Stateful σ (Recorded τ) β}
    {f : Unit → Stateful σ τ β} (h : Records (f' ()) (f ()) (g s) w Q) :
    Records (modify g >>= f') (modify g >>= f) s w Q := h

/-- What is recorded stands beside what the work gives, plain and recorded. -/
theorem Records.and_apply {m' : Stateful σ (Recorded τ) α} {m : Stateful σ τ α}
    (hm : Records m' m s w R) : Records m' m s w fun r s' steps w' =>
      R r s' steps w' ∧ m.apply s w = ((r, s'), w') ∧
        m'.apply s (w.recorded []) = ((r, s'), w'.recorded steps) :=
  let ⟨steps, hrun, hr⟩ := hm
  ⟨steps, hrun, hr, rfl, hrun []⟩

end Stateful

/-! ## Parts of a launch with a record -/

namespace Launch

open Stateful (Records)

variable {s : LaunchState} {w : World τ}

/-- A recorded effect is a part of a launch that knows as much as before. -/
theorem records_lift {e' : Effect (Recorded τ) ε α} {e : Effect τ ε α}
    {R : Except ε α → List (LaunchStep τ) → World τ → Prop} (f : ε → LaunchError)
    (he : e'.Records e w R) : Records (lift f e') (lift f e) s w fun r s' steps w' =>
      s' = s ∧ ∃ answer, r = answer.mapError f ∧ R answer steps w' := by
  obtain ⟨steps, hrun, hr⟩ := he
  exact ⟨steps, fun done => by rw [apply_lift, hrun]; rfl, rfl, _, rfl, hr⟩

/-- A recorded call is one step of a launch. -/
theorem records_call (call : Except LaunchError α → LaunchCall) (e : Effect τ LaunchError α)
    (s : LaunchState) (w : World τ) :
    Records (lift id (e.recorded call)) (lift id e) s w fun r s' steps w' =>
      s' = s ∧ steps = [⟨call r, w, w'⟩] ∧ e.apply w = (r, w') := by
  refine (records_lift id (Effect.records_recorded call e w)).mono ?_
  rintro _ s' steps w' ⟨rfl, answer, rfl, rfl, hrun⟩
  rw [mapError_id]
  exact ⟨rfl, rfl, hrun⟩

/-- A recorded call that cannot fail is one step of a launch. -/
theorem records_always (call : LaunchCall) (e : Effect τ Empty Unit) (s : LaunchState)
    (w : World τ) :
    Records (always (e.recorded fun _ => call)) (always e) s w fun r s' steps w' =>
      r = .ok () ∧ s' = s ∧ steps = [⟨call, w, w'⟩] ∧ w' = (e.apply w).2 := by
  refine Records.mono (records_lift _ (Effect.records_recorded (fun _ => call) e w)) ?_
  rintro _ s' steps w' ⟨rfl, answer, rfl, rfl, hrun⟩
  cases answer with
  | ok _ => exact ⟨rfl, rfl, rfl, by rw [hrun]⟩
  | error e => exact e.elim

/-- An effect whose outcome is a value cannot fail. -/
theorem records_outcome {e' : Effect (Recorded τ) ε α} {e : Effect τ ε α}
    {R : Except ε α → List (LaunchStep τ) → World τ → Prop} (he : e'.Records e w R) :
    Records (always e'.outcome) (always e.outcome) s w fun r s' steps w' =>
      s' = s ∧ ∃ answer, r = .ok answer ∧ R answer steps w' := by
  obtain ⟨steps, hrun, hr⟩ := he
  exact ⟨steps, fun done => by rw [apply_always, Effect.apply_outcome, hrun]; rfl, rfl, _, rfl, hr⟩

/-- A call on the file system is not recorded. -/
theorem records_onFiles (c : FileSystem.Call LaunchError α) (s : LaunchState) (w : World τ) :
    Records (onFiles c) (onFiles c) s w fun r s' steps w' =>
      s' = s ∧ steps = [] ∧ ∃ files, c.apply w.files = (r, files) ∧ w' = { w with files } := by
  refine .of_apply (fun done => ?_) ?_
  · rw [apply_onFiles, apply_onFiles]
    rfl
  · rw [apply_onFiles]
    exact ⟨rfl, rfl, _, rfl, rfl⟩

/-- What is known of the session can be changed. -/
theorem records_setSession {Q : Except LaunchError α → LaunchState → List (LaunchStep τ) →
      World τ → Prop} {g : LaunchSession → LaunchSession} {f' : Unit → Launch (Recorded τ) α}
    {f : Unit → Launch τ α} (h : Records (f' ()) (f ()) { s with session := g s.session } w Q) :
    Records (setSession g >>= f') (setSession g >>= f) s w Q := h

/-- The session can be looked at. -/
theorem records_session {Q : Except LaunchError α → LaunchState → List (LaunchStep τ) →
      World τ → Prop} {f' : LaunchSession → Launch (Recorded τ) α}
    {f : LaunchSession → Launch τ α} (h : Records (f' s.session) (f s.session) s w Q) :
    Records (session >>= f') (session >>= f) s w Q := h

end Launch

namespace Extraction

open Stateful (Records)

variable {pool : Pool} {w : World τ}

/-- What an extraction does with files is not recorded. -/
theorem records_onFiles (p : Pooled LaunchError α) (pool : Pool) (w : World τ) :
    Records (onFiles p) (onFiles p) pool w fun _ _ steps w' =>
      steps = [] ∧ w' = { w with files := (p.apply pool w.files).2 } := by
  refine .of_apply (fun done => ?_) ⟨rfl, rfl⟩
  rw [apply_onFiles, apply_onFiles]
  rfl

/-- A recorded observer is one step of an extraction. -/
theorem records_onWorld (call : LaunchCall) (e : Effect τ Empty Unit) (pool : Pool)
    (w : World τ) :
    Records (onWorld (e.recorded fun _ => call)) (onWorld e) pool w fun _ _ steps w' =>
      steps = [⟨call, w, w'⟩] := by
  refine ⟨_, fun done => ?_, rfl⟩
  rw [apply_onWorld, apply_onWorld]
  rfl

/-- An extraction whose pool is given up in the end is an effect. -/
theorem records_released {x' : Extracting (Recorded τ) α} {x : Extracting τ α}
    {R : Except LaunchError α → Pool → List (LaunchStep τ) → World τ → Prop}
    (hx : Records x' x pool w R) :
    Effect.Records (fun w => let ((r, _), w) := x' pool w; (r, w))
      (fun w => let ((r, _), w) := x pool w; (r, w)) w
      fun r steps w' => ∃ pool', R r pool' steps w' := by
  obtain ⟨steps, hrun, hr⟩ := hx
  refine ⟨steps, fun done => ?_, _, hr⟩
  have hrun' : x' pool (w.recorded done) = _ := hrun done
  show ((x' pool (w.recorded done)).1.1, (x' pool (w.recorded done)).2) = _
  rw [hrun']
  rfl

end Extraction

end Stowage
