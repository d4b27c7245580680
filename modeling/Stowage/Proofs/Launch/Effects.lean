import Stowage.Launch.Launcher
import Stowage.Proofs.Files.Calls

/-!
# What effects and the parts of a launch do

`Effect.apply` carries an effect out.  This module computes it for the ways in which
effects are put together, and does the same for work that keeps a state of its own beside
the world (`Stateful`): the parts of a launch keep what is known of the run, and an
extraction keeps a pool of open containers.
-/

namespace Stowage

open Result

variable {σ τ ε ε' α β : Type}

namespace Effect

theorem apply_bind (e : Effect τ ε α) (f : α → Effect τ ε β) (w : World τ) :
    (e >>= f).apply w = match e.apply w with
      | (.ok a, w') => (f a).apply w'
      | (.error e, w') => (.error e, w') := by
  show (ExceptT.bindCont f (e w).1).run (e w).2 = _
  unfold apply
  show _ = match e w with
    | (.ok a, w') => f a w'
    | (.error e, w') => (.error e, w')
  rcases e w with ⟨r, w'⟩
  cases r <;> rfl

@[simp] theorem apply_pure (a : α) (w : World τ) :
    (pure a : Effect τ ε α).apply w = (.ok a, w) := rfl

@[simp] theorem apply_throw (e : ε) (w : World τ) :
    (throw e : Effect τ ε α).apply w = (.error e, w) := rfl

@[simp] theorem apply_ask (f : World τ → α) (w : World τ) :
    (ask f : Effect τ ε α).apply w = (.ok (f w), w) := rfl

@[simp] theorem apply_change (f : World τ → World τ) (w : World τ) :
    (change f : Effect τ ε Unit).apply w = (.ok (), f w) := rfl

@[simp] theorem apply_onFiles (f : ε → ε') (c : FileSystem.Call ε α) (w : World τ) :
    (onFiles f c).apply w =
      ((c.apply w.files).1.mapError f, { w with files := (c.apply w.files).2 }) := rfl

@[simp] theorem apply_withError (f : ε → ε') (e : Effect τ ε α) (w : World τ) :
    (e.withError f).apply w = ((e.apply w).1.mapError f, (e.apply w).2) := rfl

@[simp] theorem apply_outcome (e : Effect τ ε α) (w : World τ) :
    (e.outcome : Effect τ ε' _).apply w = (.ok (e.apply w).1, (e.apply w).2) := rfl

theorem apply_map (f : α → β) (e : Effect τ ε α) (w : World τ) :
    (f <$> e).apply w = ((e.apply w).1.map f, (e.apply w).2) := by
  unfold apply
  show (ExceptT.map f e) w = ((e w).1.map f, (e w).2)
  unfold ExceptT.map
  show (match (e w).1 with
    | .ok a => pure (.ok (f a))
    | .error e => pure (.error e) : StateM (World τ) (Except ε β)) (e w).2 = _
  cases (e w).1 <;> rfl

/-- An effect that cannot fail does not. -/
theorem apply_always (e : Effect τ Empty Unit) (w : World τ) :
    e.apply w = (.ok (), (e.apply w).2) := by
  rcases h : e.apply w with ⟨r, w'⟩
  cases r with
  | ok _ => rfl
  | error e => exact e.elim

end Effect

/-- Work on a world that keeps a state of its own. -/
abbrev Stateful (σ τ α : Type) := ExceptT LaunchError (StateT σ (StateM (World τ))) α

namespace Stateful

/-- Carries out some work: its result and its state, and the world that it leaves. -/
def apply (m : Stateful σ τ α) (s : σ) (w : World τ) : (Except LaunchError α × σ) × World τ :=
  (m.run.run s).run w

theorem apply_bind (m : Stateful σ τ α) (f : α → Stateful σ τ β) (s : σ) (w : World τ) :
    (m >>= f).apply s w = match m.apply s w with
      | ((.ok a, s'), w') => (f a).apply s' w'
      | ((.error e, s'), w') => ((.error e, s'), w') := by
  show _ = match m s w with
    | ((.ok a, s'), w') => f a s' w'
    | ((.error e, s'), w') => ((.error e, s'), w')
  unfold apply
  show ((ExceptT.bindCont f (m s w).1.1) (m s w).1.2) (m s w).2 = _
  rcases m s w with ⟨⟨r, s'⟩, w'⟩
  cases r <;> rfl

@[simp] theorem apply_pure (a : α) (s : σ) (w : World τ) :
    (pure a : Stateful σ τ α).apply s w = ((.ok a, s), w) := rfl

@[simp] theorem apply_throw (e : LaunchError) (s : σ) (w : World τ) :
    (throw e : Stateful σ τ α).apply s w = ((.error e, s), w) := rfl

@[simp] theorem apply_get (s : σ) (w : World τ) :
    (get : Stateful σ τ σ).apply s w = ((.ok s, s), w) := rfl

@[simp] theorem apply_modify (f : σ → σ) (s : σ) (w : World τ) :
    (modify f : Stateful σ τ Unit).apply s w = ((.ok (), f s), w) := rfl

end Stateful

namespace Launch

variable {s : LaunchState} {w : World τ}

@[simp] theorem apply_lift (f : ε → LaunchError) (e : Effect τ ε α) (s : LaunchState)
    (w : World τ) :
    Stateful.apply (lift f e) s w = (((e.apply w).1.mapError f, s), (e.apply w).2) := rfl

@[simp] theorem apply_always (e : Effect τ Empty α) (s : LaunchState) (w : World τ) :
    Stateful.apply (always e) s w =
      (((e.apply w).1.mapError nofun, s), (e.apply w).2) := rfl

@[simp] theorem apply_onFiles (c : FileSystem.Call LaunchError α) (s : LaunchState)
    (w : World τ) :
    Stateful.apply (onFiles c) s w =
      (((c.apply w.files).1, s), { w with files := (c.apply w.files).2 }) := by
  show (((((c.apply w.files).1.mapError id).mapError id), s), _) = _
  cases (c.apply w.files).1 <;> rfl

@[simp] theorem apply_setSession (f : LaunchSession → LaunchSession) (s : LaunchState)
    (w : World τ) :
    Stateful.apply (setSession f) s w = ((.ok (), { s with session := f s.session }), w) := rfl

@[simp] theorem apply_session (s : LaunchState) (w : World τ) :
    Stateful.apply session s w = ((.ok s.session, s), w) := rfl

end Launch

namespace Extraction

@[simp] theorem apply_onFiles (p : Pooled LaunchError α) (pool : Pool) (w : World τ) :
    Stateful.apply (onFiles p) pool w =
      ((p.apply pool w.files).1, { w with files := (p.apply pool w.files).2 }) := rfl

@[simp] theorem apply_onWorld (e : Effect τ Empty Unit) (pool : Pool) (w : World τ) :
    Stateful.apply (onWorld e) pool w = ((.ok (), pool), (e.apply w).2) := rfl

end Extraction

end Stowage
