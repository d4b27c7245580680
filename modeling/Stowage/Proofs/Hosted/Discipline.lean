import Stowage.Hosted.Simulation
import Stowage.Proofs.Hosted.References
import Stowage.Proofs.Result

/-!
# The discipline of references and errors

The ledger of `References` counts what has been said.  What it owns of an object is what has
been given less what has been released (`Ledger.count_owned`), so that a call which releases
or uses an object does so while the object is held (`Tended`).  An error that the runtime
really has pending is one of which the ledger knows, provided that the entry points do what is
documented of them (`Turn.IsDocumented`).

`references_are_tended` says both of every call of every session.
-/

namespace Stowage

open Exchange

variable {σ α : Type}

/-! ## What is said of an object -/

namespace Exchange

/-- How often an object is given to the caller. -/
def timesGiven (p : Pointer) (t : List Exchange) : Nat := t.countP (·.given? == some p)

/-- How often an object is released. -/
def timesReleased (p : Pointer) (t : List Exchange) : Nat := t.countP (·.call.released? == some p)

/-- An object is lent to the caller. -/
def WasLent (p : Pointer) (t : List Exchange) : Prop := ∃ e ∈ t, e.lent? = some p

variable {p : Pointer} {e : Exchange} {t u : List Exchange}

@[simp] theorem timesGiven_append :
    timesGiven p (t ++ u) = timesGiven p t + timesGiven p u := List.countP_append

@[simp] theorem timesReleased_append :
    timesReleased p (t ++ u) = timesReleased p t + timesReleased p u := List.countP_append

theorem timesGiven_cons :
    timesGiven p (e :: t) = timesGiven p t + if e.given? = some p then 1 else 0 := by
  simp [timesGiven, List.countP_cons]

theorem timesReleased_cons :
    timesReleased p (e :: t) = timesReleased p t + if e.call.released? = some p then 1 else 0 := by
  simp [timesReleased, List.countP_cons]

theorem timesReleased_eq_zero_iff :
    timesReleased p t = 0 ↔ ∀ f ∈ t, f.call.released? ≠ some p := by
  simp [timesReleased]

theorem wasLent_cons : WasLent p (e :: t) ↔ e.lent? = some p ∨ WasLent p t := by simp [WasLent]

theorem WasLent.append (h : WasLent p t) (u : List Exchange) : WasLent p (t ++ u) := by
  obtain ⟨e, he, hp⟩ := h
  exact ⟨e, List.mem_append_left u he, hp⟩

end Exchange

/-- Every object that is given is released once for each time that it is given, and not before;
what is released or used is held at that time, or it has been lent if it is only used. -/
structure Tended (t : List Exchange) : Prop where
  balanced : ∀ p, timesReleased p t = timesGiven p t
  released_held : ∀ before e later p, t = before ++ e :: later → e.call.released? = some p →
    timesReleased p before < timesGiven p before
  used_held : ∀ before e later p, t = before ++ e :: later → p ∈ e.call.uses →
    timesReleased p before < timesGiven p before ∨ WasLent p before

/-- What has been released as often as given is not used, unless it has been lent. -/
theorem Tended.not_used {t before later : List Exchange} {f : Exchange} {p : Pointer}
    (h : Tended t) (hlent : ¬ WasLent p t) (ht : t = before ++ f :: later)
    (hreleased : timesGiven p before ≤ timesReleased p before) : p ∉ f.call.uses := fun huse => by
  rcases h.used_held before f later p ht huse with hheld | hbefore
  · omega
  · exact hlent (ht ▸ hbefore.append _)

/-- **An object that is given once** is released once, later on.  Unless it is lent as well, it is
not used before it is given or after it is released. -/
theorem Tended.once {t before later : List Exchange} {e : Exchange} {p : Pointer} (h : Tended t)
    (ht : t = before ++ e :: later) (he : e.given? = some p) (honce : timesGiven p t = 1) :
    ∃ meanwhile release rest, later = meanwhile ++ release :: rest ∧
      release.call.released? = some p ∧
      (∀ f ∈ before ++ e :: (meanwhile ++ rest), f.call.released? ≠ some p) ∧
      (¬ WasLent p t → ∀ f ∈ before ++ rest, p ∉ f.call.uses) := by
  subst ht
  have hreleased : timesReleased p (before ++ e :: later) = 1 := (h.balanced p).trans honce
  have hbefore : timesGiven p before = 0 := by
    rw [timesGiven_append, timesGiven_cons, if_pos he] at honce
    omega
  have hlater : timesGiven p later = 0 := by
    rw [timesGiven_append, timesGiven_cons, if_pos he] at honce
    omega
  -- nothing is released before it has been given, so the release comes later
  have hnone : timesReleased p before = 0 := by
    refine timesReleased_eq_zero_iff.mpr fun f hf hp => ?_
    obtain ⟨first, last, rfl⟩ := List.append_of_mem hf
    have := h.released_held first f (last ++ e :: later) p (by simp) hp
    rw [timesGiven_append] at hbefore
    omega
  have hself : e.call.released? ≠ some p := fun hp => by
    have := h.released_held before e later p rfl hp
    omega
  have hcount : timesReleased p later = 1 := by
    rw [timesReleased_append, timesReleased_cons, if_neg hself] at hreleased
    omega
  obtain ⟨release, hin, hp⟩ := List.countP_pos_iff.mp (hcount ▸ Nat.one_pos)
  rw [beq_iff_eq] at hp
  obtain ⟨meanwhile, rest, rfl⟩ := List.append_of_mem hin
  rw [timesReleased_append, timesReleased_cons, if_pos hp] at hcount
  refine ⟨meanwhile, release, rest, rfl, hp, timesReleased_eq_zero_iff.mp ?_, fun hlent f hf => ?_⟩
  · rw [timesReleased_append, timesReleased_cons, if_neg hself, timesReleased_append]
    omega
  · rcases List.mem_append.mp hf with hf | hf
    · obtain ⟨first, last, rfl⟩ := List.append_of_mem hf
      rw [timesGiven_append] at hbefore
      exact h.not_used hlent (List.append_assoc ..) (by omega)
    · obtain ⟨first, last, rfl⟩ := List.append_of_mem hf
      have hsplit : before ++ e :: (meanwhile ++ release :: (first ++ f :: last)) =
          (before ++ e :: (meanwhile ++ release :: first)) ++ f :: last := by simp
      refine h.not_used hlent hsplit ?_
      simp only [timesGiven_append, timesGiven_cons, timesReleased_append, timesReleased_cons,
        if_pos he, if_pos hp] at honce ⊢
      omega

/-! ## What the ledger knows -/

namespace Ledger

variable {g : Ledger} {t : List Exchange}

theorem count_note {e : Exchange} (h : watch.permits g e.call) (p : Pointer) :
    (g.note e).owned.count p + (if e.call.released? = some p then 1 else 0) =
      g.owned.count p + if e.given? = some p then 1 else 0 := by
  have hgiven : e.given?.toList.count p = if e.given? = some p then 1 else 0 := by
    cases e.given? with
    | none => rfl
    | some q => simp [List.count_singleton]
  cases hreleased : e.call.released? with
  | none => simp [note, hreleased, hgiven, Nat.add_comm]
  | some q =>
    -- `erase` takes one away only of what is there
    have howned : q ∈ g.owned := h.1 q hreleased
    by_cases hq : q = p
    · subst hq
      have := List.count_pos_iff.mpr howned
      simp only [note, hreleased, List.count_append, hgiven, List.count_erase_self, if_true]
      omega
    · simp [note, hreleased, hgiven, List.count_erase_of_ne (Ne.symm hq), hq, Nat.add_comm]

/-- **What is owned of an object** is what has been given less what has been released. -/
theorem count_owned (h : watch.Accepts g t) (p : Pointer) :
    (watch.afterAll g t).owned.count p + timesReleased p t = g.owned.count p + timesGiven p t := by
  induction t generalizing g with
  | nil => rfl
  | cons e t ih =>
    have hnote := count_note h.1 p
    have hrest : (watch.afterAll g (e :: t)).owned.count p + timesReleased p t =
        (g.note e).owned.count p + timesGiven p t := ih h.2
    rw [timesReleased_cons, timesGiven_cons]
    omega

theorem mem_lent (p : Pointer) (t : List Exchange) (g : Ledger) :
    p ∈ (watch.afterAll g t).lent ↔ WasLent p t ∨ p ∈ g.lent := by
  induction t generalizing g with
  | nil => simp [Watch.afterAll, WasLent]
  | cons e t ih =>
    have hrest : p ∈ (watch.afterAll g (e :: t)).lent ↔ WasLent p t ∨ p ∈ (g.note e).lent :=
      ih (g.note e)
    have hnote : p ∈ (g.note e).lent ↔ e.lent? = some p ∨ p ∈ g.lent := by simp [note]
    rw [hrest, hnote, wasLent_cons, or_left_comm, or_assoc]

/-- What is owned at a place has been given more often than released. -/
theorem held_of_owned {p : Pointer} (h : watch.Accepts ⟨[], [], false⟩ t)
    (hp : p ∈ (watch.afterAll ⟨[], [], false⟩ t).owned) : timesReleased p t < timesGiven p t := by
  have hcount := count_owned h p
  have := List.count_pos_iff.mpr hp
  simp only [List.count_nil] at hcount
  omega

end Ledger

/-- What passes the ledger and leaves nothing owned is tended. -/
theorem Tended.of_accepts {t : List Exchange} (h : Ledger.watch.Accepts ⟨[], [], false⟩ t)
    (howned : (Ledger.watch.afterAll ⟨[], [], false⟩ t).owned = []) : Tended t where
  balanced p := by
    have := Ledger.count_owned h p
    simp only [howned, List.count_nil] at this
    omega
  released_held := by
    rintro before e later p rfl hp
    exact Ledger.held_of_owned h.left (h.permits_at.1 p hp)
  used_held := by
    rintro before e later p rfl hp
    refine (h.permits_at.2 p hp).imp (Ledger.held_of_owned h.left) fun hlent => ?_
    simpa using (Ledger.mem_lent p before _).mp hlent

/-! ## What is pending -/

/-- A turn is as it is documented of the entry points: whether an error is pending is answered
truthfully, printing and clearing end it, and only a call that reports failure raises one, if it
raises any.  An error is raised inside an initialised runtime: what configures, initialises or
shuts down a runtime reports in its answer only. -/
structure Turn.IsDocumented (pending : σ → Bool) (turn : Turn σ) : Prop where
  answered : ∀ found ∈ turn.exchange.tellsPending?, found = pending turn.before
  ended : turn.exchange.call.endsError = true → pending turn.after = false
  raised : pending turn.after = true → pending turn.before = true ∨
    (turn.exchange.call.raisesNone = false ∧ turn.exchange.fails = true)
  inside : pending turn.after = true → pending turn.before = true ∨
    turn.exchange.call.needsRuntime = true

instance (pending : σ → Bool) (turn : Turn σ) : Decidable (turn.IsDocumented pending) :=
  decidable_of_iff ((∀ found ∈ turn.exchange.tellsPending?, found = pending turn.before) ∧
    (turn.exchange.call.endsError = true → pending turn.after = false) ∧
    (pending turn.after = true → pending turn.before = true ∨
      (turn.exchange.call.raisesNone = false ∧ turn.exchange.fails = true)) ∧
    (pending turn.after = true → pending turn.before = true ∨
      turn.exchange.call.needsRuntime = true))
    ⟨fun h => ⟨h.1, h.2.1, h.2.2.1, h.2.2.2⟩,
      fun h => ⟨h.answered, h.ended, h.raised, h.inside⟩⟩

/-- Asking whether an error is pending does not fail. -/
theorem fails_of_tellsPending {e : Exchange} {found : Bool} (h : e.tellsPending? = some found) :
    e.fails = false := by
  obtain ⟨c, answer⟩ := e
  cases c <;> cases h
  rfl

/-- An error that was not pending before has been raised by a call that may. -/
theorem Turn.IsDocumented.mayRaise {pending : σ → Bool} {turn : Turn σ}
    (h : turn.IsDocumented pending) (hpending : pending turn.after = true) :
    pending turn.before = true ∨
      (turn.exchange.call.mayRaise = true ∧ turn.exchange.fails = true) := by
  rcases h.raised hpending with hbefore | ⟨hraises, hfails⟩
  · exact .inl hbefore
  · refine (h.inside hpending).imp_right fun hneeds => ⟨?_, hfails⟩
    rw [EntryCall.mayRaise, hneeds, hraises]
    rfl

/-- The ledger knows of an error after a turn if it knows of one before. -/
theorem Turn.IsDocumented.known {pending : σ → Bool} {turn : Turn σ} {g : Ledger}
    (h : turn.IsDocumented pending) (hknown : pending turn.before = true → g.mayPend = true)
    (hpending : pending turn.after = true) : (g.note turn.exchange).mayPend = true := by
  have hgoes : turn.exchange.call.endsError = false :=
    Bool.eq_false_iff.mpr fun hends => Bool.eq_false_iff.mp (h.ended hends) hpending
  cases htells : turn.exchange.tellsPending? with
  | none =>
    have hmay : (g.mayPend || (turn.exchange.call.mayRaise && turn.exchange.fails)) = true := by
      simpa using (h.mayRaise hpending).imp_left hknown
    simpa [Ledger.note, htells, hgoes] using hmay
  | some found =>
    have hbefore : pending turn.before = true := by
      refine (h.mayRaise hpending).resolve_right fun hraised => ?_
      rw [fails_of_tellsPending htells] at hraised
      cases hraised.2
    simpa [Ledger.note, htells, h.answered found htells] using hbefore

/-- **The ledger knows of every error** that is pending at the end of a dialogue. -/
theorem Ledger.known_of_documented {pending : σ → Bool} (respond : Dialogue.Responder σ)
    (d : Dialogue α) (s : σ) (g : Ledger)
    (hdoc : ∀ turn ∈ d.turns respond s, turn.IsDocumented pending)
    (hknown : pending s = true → g.mayPend = true) (hpending : pending (d.run respond s).2 = true) :
    (watch.afterAll g (d.transcript respond s)).mayPend = true := by
  induction d generalizing s g with
  | done a => exact hknown hpending
  | ask c next ih =>
    have hturn := hdoc _ List.mem_cons_self
    exact ih _ _ _ (fun turn hin => hdoc turn (List.mem_cons_of_mem _ hin)) (hturn.known hknown)
      hpending

/-- **The discipline of references and errors.**  In every session, whatever is answered, every
call releases what it has been given as often as it has been given it and before it returns,
releases nothing else (so neither null nor what it has only been lent), and uses only what it
holds or has been lent.  An object that is given once is released once, after that and not used
again.  If the entry points do what is documented of them and no error was pending before the
call, none is pending after it. -/
theorem references_are_tended (respond : Dialogue.Responder σ)
    (operations : List HostedOperation) (r : BoundRuntime) (s : σ) (call : HostedCall σ)
    (hcall : call ∈ session respond operations r s) :
    Tended call.exchanges ∧
      (∀ before e later p, call.exchanges = before ++ e :: later → e.given? = some p →
        timesGiven p call.exchanges = 1 →
        ∃ meanwhile release rest, later = meanwhile ++ release :: rest ∧
          release.call.released? = some p ∧
          (∀ f ∈ before ++ e :: (meanwhile ++ rest), f.call.released? ≠ some p) ∧
          (¬ WasLent p call.exchanges → ∀ f ∈ before ++ rest, p ∉ f.call.uses)) ∧
      ∀ pending : σ → Bool, (∀ turn ∈ call.turns, turn.IsDocumented pending) →
        pending call.before = false → pending call.after = false := by
  obtain ⟨operation, r', s', rfl⟩ := exists_carryOut_of_mem_session hcall
  obtain ⟨haccepts, howned, hsettled⟩ := (Ledger.guides_work operation).carryOut respond s'
  have htended := Tended.of_accepts haccepts howned
  refine ⟨htended, fun before e later p hsplit hgiven honce => htended.once hsplit hgiven honce,
    fun pending hdoc hbefore => ?_⟩
  refine Bool.eq_false_iff.mpr fun hpending => ?_
  have hknown := Ledger.known_of_documented respond (operation.work.run.run r') s' ⟨[], [], false⟩
    hdoc (fun htrue => absurd htrue (Bool.eq_false_iff.mp hbefore)) hpending
  exact absurd hknown (Bool.eq_false_iff.mp hsettled)

/-- A start, a script that fails, and the end. -/
def sampleOperations : List HostedOperation :=
  [.start sampleSettings, .runScript "main" [112], .finalize]

/-- What comes of them if the script cannot be evaluated. -/
def sampleSession : List (HostedCall Simulation) :=
  session (Simulation.respond .empty) sampleOperations sampleRuntime
    (.fresh [⟨"PyEval_EvalCode", 0, .success⟩] 400 false)

/-- The script among them. -/
def failingScript : HostedCall Simulation := sampleSession.get ⟨1, by decide +kernel⟩

/-- The general statement for the script. -/
theorem references_are_tended_failingScript :
    failingScript ∈ sampleSession ∧ failingScript.result = .error (.scriptFailed "main") ∧
      Tended failingScript.exchanges ∧ failingScript.after.hasPendingError = false := by
  have hin : failingScript ∈ sampleSession := List.get_mem ..
  have hfails : failingScript.result = .error (.scriptFailed "main") := by decide +kernel
  have hdocumented : ∀ turn ∈ failingScript.turns,
      turn.IsDocumented Simulation.hasPendingError := by
    decide +kernel
  obtain ⟨htended, -, hpending⟩ := references_are_tended _ _ _ _ _ hin
  exact ⟨hin, hfails, htended, hpending _ hdocumented (by decide +kernel)⟩

end Stowage
