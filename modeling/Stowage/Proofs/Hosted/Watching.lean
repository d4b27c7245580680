import Stowage.Hosted.Bound

/-!
# What is said to a runtime

A piece of work on a runtime is a dialogue, and whoever answers decides how it goes.  This
module reads off what is said (`Dialogue.turns`) and watches it: a `Watch` keeps something
of what has been said so far, and permits some calls and not others.  What passes a watch
does so whatever is answered (`Watch.Passes`), so that every transcript is accepted by it
(`Watch.Passes.accepts`).

Work that has a state of its own and may fail is followed step by step (`Watch.Guides`): one
rule for each way in which such work is put together.
-/

namespace Stowage

/-- A call of an entry point and its answer. -/
structure Exchange where
  {shape : AnswerShape}
  call : EntryCall shape
  answer : shape.Answer

/-- An exchange, with the state of the runtime before and after it. -/
structure Turn (σ : Type) where
  exchange : Exchange
  before : σ
  after : σ

variable {σ γ α β S : Type}

namespace Dialogue

/-- What is said, turn by turn, when somebody answers. -/
def turns (respond : Responder σ) : Dialogue α → σ → List (Turn σ)
  | done _, _ => []
  | ask c next, s =>
    ⟨⟨c, (respond c s).1⟩, s, (respond c s).2⟩ ::
      (next (respond c s).1).turns respond (respond c s).2

/-- The calls and the answers. -/
def transcript (respond : Responder σ) (d : Dialogue α) (s : σ) : List Exchange :=
  (d.turns respond s).map (·.exchange)

/-- What goes on with a result is said after what has led to it. -/
theorem run_andThen (respond : Responder σ) (d : Dialogue α) (f : α → Dialogue β) (s : σ) :
    (d.andThen f).run respond s = (f (d.run respond s).1).run respond (d.run respond s).2 := by
  induction d generalizing s with
  | done a => rfl
  | ask c next ih => exact ih _ _

theorem turns_andThen (respond : Responder σ) (d : Dialogue α) (f : α → Dialogue β) (s : σ) :
    (d.andThen f).turns respond s =
      d.turns respond s ++ (f (d.run respond s).1).turns respond (d.run respond s).2 := by
  induction d generalizing s with
  | done a => rfl
  | ask c next ih => exact congrArg (List.cons _) (ih _ _)

end Dialogue

/-- What somebody keeps of a dialogue, and what he permits. -/
structure Watch (γ : Type) where
  permits : γ → {shape : AnswerShape} → EntryCall shape → Prop
  after : γ → Exchange → γ

namespace Watch

/-- What is kept after some exchanges. -/
def afterAll (w : Watch γ) (g : γ) (t : List Exchange) : γ := t.foldl w.after g

/-- Every call of some exchanges is permitted. -/
def Accepts (w : Watch γ) : γ → List Exchange → Prop
  | _, [] => True
  | g, e :: t => w.permits g e.call ∧ Accepts w (w.after g e) t

/-- Whatever is answered, every call is permitted, and in the end `Q` holds of the result and of
what is kept. -/
def Passes (w : Watch γ) : Dialogue α → γ → (α → γ → Prop) → Prop
  | .done a, g, Q => Q a g
  | .ask c next, g, Q =>
    w.permits g c ∧ ∀ answer, Passes w (next answer) (w.after g ⟨c, answer⟩) Q

variable {w : Watch γ} {g : γ} {s : S}

/-- What is accepted as a whole is accepted as far as it goes. -/
theorem Accepts.left {before later : List Exchange} (h : w.Accepts g (before ++ later)) :
    w.Accepts g before := by
  induction before generalizing g with
  | nil => trivial
  | cons e before ih => exact ⟨h.1, ih h.2⟩

/-- What is accepted as a whole is permitted at each place. -/
theorem Accepts.permits_at {before later : List Exchange} {e : Exchange}
    (h : w.Accepts g (before ++ e :: later)) : w.permits (w.afterAll g before) e.call := by
  induction before generalizing g with
  | nil => exact h.1
  | cons f before ih => exact ih h.2

theorem Passes.mono {d : Dialogue α} {Q R : α → γ → Prop} (h : w.Passes d g Q)
    (hR : ∀ a g', Q a g' → R a g') : w.Passes d g R := by
  induction d generalizing g with
  | done a => exact hR a g h
  | ask c next ih => exact ⟨h.1, fun answer => ih answer (h.2 answer)⟩

theorem Passes.andThen {d : Dialogue α} {f : α → Dialogue β} {Q : β → γ → Prop}
    (h : w.Passes d g fun a g' => w.Passes (f a) g' Q) : w.Passes (d.andThen f) g Q := by
  induction d generalizing g with
  | done a => exact h
  | ask c next ih => exact ⟨h.1, fun answer => ih answer (h.2 answer)⟩

/-- **What passes a watch** is accepted by it, whoever answers. -/
theorem Passes.accepts {d : Dialogue α} {Q : α → γ → Prop} (h : w.Passes d g Q)
    (respond : Dialogue.Responder σ) (s : σ) :
    w.Accepts g (d.transcript respond s) ∧
      Q (d.run respond s).1 (w.afterAll g (d.transcript respond s)) := by
  induction d generalizing g s with
  | done a => exact ⟨trivial, h⟩
  | ask c next ih =>
    obtain ⟨haccepts, hQ⟩ := ih _ (h.2 (respond c s).1) (respond c s).2
    exact ⟨⟨h.1, haccepts⟩, hQ⟩

/-! ## Work with a state that may fail -/

/-- As `Passes`, for work with a state of its own that may fail. -/
def Guides (w : Watch γ) (work : ExceptT RuntimeError (StateT S Dialogue) α) (s : S) (g : γ)
    (Q : Except RuntimeError α → S → γ → Prop) : Prop :=
  w.Passes (work.run.run s) g fun p => Q p.1 p.2

variable {Q : Except RuntimeError β → S → γ → Prop}

theorem Guides.mono {work : ExceptT RuntimeError (StateT S Dialogue) α}
    {Q R : Except RuntimeError α → S → γ → Prop} (h : w.Guides work s g Q)
    (hR : ∀ result s' g', Q result s' g' → R result s' g') : w.Guides work s g R :=
  Passes.mono h fun p => hR p.1 p.2

theorem Guides.bind {work : ExceptT RuntimeError (StateT S Dialogue) α}
    {f : α → ExceptT RuntimeError (StateT S Dialogue) β}
    (h : w.Guides work s g fun result s' g' => match result with
      | .ok a => w.Guides (f a) s' g' Q
      | .error e => Q (.error e) s' g') : w.Guides (work >>= f) s g Q := by
  refine Passes.andThen (Passes.mono h ?_)
  rintro ⟨e | a, s'⟩ g' h'
  · exact h'
  · exact h'

theorem guides_pure {a : β} (h : Q (.ok a) s g) :
    w.Guides (pure a : ExceptT RuntimeError (StateT S Dialogue) β) s g Q := h

/-- What holds in the end whatever the result is holds whatever is made of the result. -/
theorem Guides.finish {work : ExceptT RuntimeError (StateT S Dialogue) α} {f : α → β}
    {P : S → γ → Prop} (h : w.Guides work s g fun _ s' g' => P s' g') :
    w.Guides (work >>= fun a => pure (f a)) s g fun _ s' g' => P s' g' := by
  refine Guides.bind (h.mono ?_)
  rintro (e | a) s' g' hP <;> exact hP

theorem guides_throw {e : RuntimeError} (h : Q (.error e) s g) :
    w.Guides (throw e : ExceptT RuntimeError (StateT S Dialogue) β) s g Q := h

theorem guides_done {result : S → Except RuntimeError β} (h : Q (result s) s g) :
    w.Guides (fun s => .done (result s, s) : ExceptT RuntimeError (StateT S Dialogue) β) s g Q := h

/-- A text that cannot be passed ends the work before the call it was meant for. -/
theorem guides_passable {text : String} {f : String → ExceptT RuntimeError (StateT S Dialogue) β}
    (hok : '\x00' ∉ text.toList → w.Guides (f text) s g Q)
    (hnul : '\x00' ∈ text.toList → Q (.error (.nulInText text)) s g) :
    w.Guides ((fun s => .done (Filling.passable text, s) :
      ExceptT RuntimeError (StateT S Dialogue) String) >>= f) s g Q := by
  refine Guides.bind (guides_done ?_)
  by_cases h : '\x00' ∈ text.toList
  · have hpassed : Filling.passable text = .error (.nulInText text) := by
      simp [Filling.passable, h]
    rw [hpassed]
    exact hnul h
  · have hpassed : Filling.passable text = .ok text := by simp [Filling.passable, h]
    rw [hpassed]
    exact hok h

section Hosted
variable {r : BoundRuntime} {Q : Except RuntimeError β → BoundRuntime → γ → Prop}

theorem guides_fail {e : RuntimeError} (h : Q (.error e) r g) :
    w.Guides (Hosted.fail e : Hosted β) r g Q := h

theorem guides_ask {shape : AnswerShape} {c : EntryCall shape} {f : shape.Answer → Hosted β}
    (hc : w.permits g c) (hf : ∀ answer, w.Guides (f answer) r (w.after g ⟨c, answer⟩) Q) :
    w.Guides (Hosted.ask c >>= f) r g Q := ⟨hc, hf⟩

theorem guides_ask_last {shape : AnswerShape} {c : EntryCall shape}
    {Q : Except RuntimeError shape.Answer → BoundRuntime → γ → Prop} (hc : w.permits g c)
    (hQ : ∀ answer, Q (.ok answer) r (w.after g ⟨c, answer⟩)) :
    w.Guides (Hosted.ask c) r g Q := ⟨hc, hQ⟩

theorem guides_current {f : BoundRuntime → Hosted β} (h : w.Guides (f r) r g Q) :
    w.Guides (Hosted.current >>= f) r g Q := h

theorem guides_change {change : BoundRuntime → BoundRuntime} {f : Unit → Hosted β}
    (h : w.Guides (f ()) (change r) g Q) : w.Guides (Hosted.change change >>= f) r g Q := h

theorem guides_pass {text : String} {f : String → Hosted β}
    (hok : '\x00' ∉ text.toList → w.Guides (f text) r g Q)
    (hnul : '\x00' ∈ text.toList → Q (.error (.nulInText text)) r g) :
    w.Guides (Hosted.pass text >>= f) r g Q := guides_passable hok hnul

theorem guides_requireStarted {f : Unit → Hosted β} (hrunning : r.isStarted = true →
    w.Guides (f ()) r g Q) (hstopped : r.isStarted = false → Q (.error .notStarted) r g) :
    w.Guides (Hosted.requireStarted >>= f) r g Q := by
  refine Guides.bind (guides_current ?_)
  cases h : r.isStarted with
  | true => exact hrunning h
  | false => exact hstopped h

theorem guides_passSource {name : String} {source : Bytes} {f : Bytes → Hosted β}
    (hok : 0 ∉ source → w.Guides (f source) r g Q)
    (hnul : 0 ∈ source → Q (.error (.nulInText s!"source of {name}")) r g) :
    w.Guides (BoundRuntime.passSource name source >>= f) r g Q := by
  refine Guides.bind ?_
  by_cases h : 0 ∈ source
  · rw [BoundRuntime.passSource, if_pos (by simpa using h)]
    exact guides_fail (hnul h)
  · rw [BoundRuntime.passSource, if_neg (by simpa using h)]
    exact guides_pure (hok h)

/-- Talk that changes nothing of what is known here. -/
theorem guides_lift {d : Dialogue α} {f : α → Hosted β}
    (h : w.Passes d g fun a g' => w.Guides (f a) r g' Q) :
    w.Guides ((liftM d : Hosted α) >>= f) r g Q :=
  -- the talk is lifted to the state, then to failure, and then goes on with `f`
  Passes.andThen (Passes.andThen (Passes.andThen h))

end Hosted

end Watch
end Stowage
