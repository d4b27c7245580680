import Stowage.Hosted.Simulation
import Stowage.Proofs.Hosted.StartOrder
import Stowage.Proofs.Result

/-!
# The protocol of a session

A session opens a window whenever a start initialises the runtime, and closes it with the
next `finalize` (`IsOpen`).  A bound runtime counts as started exactly in a window, and its
operations look at that alone.  What one operation does is said first (`KeepsProtocol`), for
an operation that finds the runtime started or not, and what it makes of that
(`isStarted_carryOut`); from the two follows what holds at every place in every session
(`session_keeps_protocol`).
-/

namespace Stowage

variable {σ : Type}

/-! ## One operation -/

/-- The operations that need a running runtime. -/
def HostedOperation.isWork : HostedOperation → Bool
  | runModule .. | addCodeBundle _ | runScript .. => true
  | _ => false

/-- A call has initialised the runtime. -/
def HostedCall.Opens (call : HostedCall σ) : Prop := ∃ e ∈ call.exchanges, e.initializes = true

/-- A call has shut the runtime down. -/
def HostedCall.ShutsDown (call : HostedCall σ) : Prop :=
  ∃ e ∈ call.exchanges, e.call.shutsDown = true

/-- An operation keeps to the protocol: entry points that need an initialised runtime are called
only if it is open, or after the call that has initialised it; if it is not open, work fails and
calls nothing, and neither does `finalize`; the runtime is shut down at most once, only by
`finalize` and only when it is open; only a start initialises it; and a start is in order. -/
structure KeepsProtocol (isOpen : Prop) (call : HostedCall σ) : Prop where
  needs : ∀ before e later, call.exchanges = before ++ e :: later → e.call.needsRuntime = true →
    isOpen ∨ ∃ f ∈ before, f.initializes = true
  notStarted : ¬ isOpen → call.operation.isWork = true →
    call.result = .error .notStarted ∧ call.exchanges = []
  idle : ¬ isOpen → call.operation = .finalize → call.exchanges = []
  shutsDown : ∀ e ∈ call.exchanges, e.call.shutsDown = true → isOpen ∧ call.operation = .finalize
  once : call.exchanges.countP (·.call.shutsDown) ≤ 1
  opens : call.Opens → ∃ settings, call.operation = .start settings
  inOrder : ∀ settings, call.operation = .start settings → StartsInOrder call.exchanges

/-! ### Work -/

namespace Working

/-- A watch that permits only what needs a running runtime, and nothing if there is none. -/
def watch (isOpen : Bool) : Watch Unit where
  permits _ _ c := isOpen = true ∧ c.needsRuntime = true
  after _ _ := ()

open Watch

variable {α β : Type} {r : BoundRuntime} {g : Unit}

/-- What is known of the runtime stays as it was. -/
def Kept (r : BoundRuntime) (_ : Except RuntimeError α) (r' : BoundRuntime) (_ : Unit) : Prop :=
  r' = r

theorem kept_bind {work : Hosted α} {f : α → Hosted β}
    (h : (watch true).Guides work r g (Kept r))
    (hf : ∀ a g', (watch true).Guides (f a) r g' (Kept r)) :
    (watch true).Guides (work >>= f) r g (Kept r) := by
  refine Guides.bind (h.mono ?_)
  rintro (e | a) r' g' rfl
  · rfl
  · exact hf a g'

theorem kept_ask {shape : AnswerShape} {c : EntryCall shape} (hc : c.needsRuntime = true) :
    (watch true).Guides (Hosted.ask c) r g (Kept r) :=
  guides_ask_last ⟨rfl, hc⟩ fun _ => rfl

theorem kept_pure (a : α) : (watch true).Guides (pure a : Hosted α) r g (Kept r) := guides_pure rfl

theorem kept_fail (e : RuntimeError) :
    (watch true).Guides (Hosted.fail e : Hosted α) r g (Kept r) := guides_fail rfl

theorem kept_pass (text : String) : (watch true).Guides (Hosted.pass text) r g (Kept r) :=
  guides_done (show Kept r _ r g from rfl)

theorem kept_ifAsked {c : EntryCall .number} {e : EntryCall .done} (hc : c.needsRuntime = true)
    (he : e.needsRuntime = true) :
    (watch true).Guides (do if (← Hosted.ask c) ≠ 0 then Hosted.ask e) r g (Kept r) :=
  kept_bind (kept_ask hc) fun answer g => by
    split
    · exact kept_ask he
    · exact kept_pure ()

theorem kept_reportError : (watch true).Guides Hosted.reportError r g (Kept r) :=
  kept_ifAsked rfl rfl

theorem kept_dropError : (watch true).Guides Hosted.dropError r g (Kept r) :=
  kept_ifAsked rfl rfl

theorem kept_dropAndFail (fault : CallFault) :
    (watch true).Guides (Hosted.dropAndFail fault : Hosted α) r g (Kept r) :=
  kept_bind kept_dropError fun _ _ => kept_fail _

theorem kept_reportAndFail (e : RuntimeError) :
    (watch true).Guides (do Hosted.reportError; Hosted.fail e : Hosted α) r g (Kept r) :=
  kept_bind kept_reportError fun _ _ => kept_fail e

theorem kept_setFileName (main : Pointer) (file : String) :
    (watch true).Guides (BoundRuntime.setFileName main file) r g (Kept r) :=
  kept_bind (kept_ask rfl) fun value g => by
    cases value with
    | none => exact kept_dropError
    | some value =>
      refine kept_bind (kept_ask rfl) fun code g => ?_
      split
      · exact kept_bind kept_dropError fun _ _ => kept_ask rfl
      · exact kept_bind (kept_pure ()) fun _ _ => kept_ask rfl

theorem kept_evaluateIn (main code : Pointer) (name : String) :
    (watch true).Guides (BoundRuntime.evaluateIn main code name) r g (Kept r) :=
  kept_bind (kept_ask rfl) fun globals _ => kept_bind (kept_ask rfl) fun result _ =>
    kept_bind (kept_ask rfl) fun _ _ => by
      cases result with
      | none => exact kept_reportAndFail _
      | some result => exact kept_ask rfl

theorem kept_passSource (name : String) (source : Bytes) :
    (watch true).Guides (BoundRuntime.passSource name source) r g (Kept r) := by
  unfold BoundRuntime.passSource
  split
  · exact kept_fail _
  · exact kept_pure source

/-- How work ends: what is known of the runtime stays as it was, and without a running runtime the
work fails. -/
def Ends (r : BoundRuntime) (result : Except RuntimeError α) (r' : BoundRuntime) (_ : Unit) :
    Prop := r' = r ∧ (r.isStarted = false → result = .error .notStarted)

/-- Work calls nothing before it is known that the runtime is running. -/
theorem ends_requireStarted {f : Unit → Hosted α}
    (h : (watch true).Guides (f ()) r g (Kept r)) :
    (watch r.isStarted).Guides (Hosted.requireStarted >>= f) r g (Ends r) := by
  refine guides_requireStarted (fun hrunning => ?_) fun _ => ⟨rfl, fun _ => rfl⟩
  rw [hrunning]
  refine h.mono fun result r' g' hkept => ⟨hkept, fun hstopped => ?_⟩
  rw [hrunning] at hstopped
  cases hstopped

theorem ends_runModule (name : String) (code : Bytes) :
    (watch r.isStarted).Guides (BoundRuntime.runModule name code) r g (Ends r) :=
  ends_requireStarted <| kept_bind (kept_pass _) fun name _ =>
    kept_bind (kept_ask rfl) fun object _ => by
      cases object with
      | none => exact kept_reportAndFail _
      | some object =>
        refine kept_bind (kept_ask rfl) fun module _ => kept_bind (kept_ask rfl) fun _ _ => ?_
        cases module with
        | none => exact kept_reportAndFail _
        | some module => exact kept_ask rfl

theorem ends_addCodeBundle (location : String) :
    (watch r.isStarted).Guides (BoundRuntime.addCodeBundle location) r g (Ends r) :=
  ends_requireStarted <| kept_bind (kept_pass _) fun location _ =>
    kept_bind (kept_ask rfl) fun searchPath _ => by
      cases searchPath with
      | none => exact kept_fail _
      | some searchPath =>
        refine kept_bind (kept_ask rfl) fun entry _ => ?_
        cases entry with
        | none => exact kept_dropAndFail _
        | some entry =>
          refine kept_bind (kept_ask rfl) fun code _ => kept_bind (kept_ask rfl) fun _ _ => ?_
          split
          · exact kept_dropAndFail _
          · exact kept_pure ()

theorem ends_runScript (name : String) (source : Bytes) :
    (watch r.isStarted).Guides (BoundRuntime.runScript name source) r g (Ends r) :=
  ends_requireStarted <| kept_bind (kept_passSource name source) fun source _ =>
    kept_bind (guides_done (show Kept r _ r _ from rfl)) fun here _ =>
    kept_bind (kept_pass _) fun file _ => kept_bind (kept_ask rfl) fun code _ => by
      cases code with
      | none => exact kept_reportAndFail _
      | some code =>
        refine kept_bind (kept_ask rfl) fun main _ => ?_
        cases main with
        | none => exact kept_bind (kept_ask rfl) fun _ _ => kept_reportAndFail _
        | some main => exact kept_bind (kept_setFileName main file) fun _ _ => kept_evaluateIn ..

/-- Work in a session ends as it does by itself. -/
theorem ends_outcome {work : Hosted α} (h : (watch r.isStarted).Guides work r g (Ends r)) :
    (watch r.isStarted).Guides (work >>= fun _ => (pure none : Hosted (Option StartOutcome))) r g
      (Ends r) := by
  refine Guides.bind (h.mono ?_)
  rintro (e | a) r' g' ⟨rfl, hfails⟩
  · refine ⟨rfl, fun hstopped => ?_⟩
    obtain rfl : e = .notStarted := Except.error.inj (hfails hstopped)
    rfl
  · exact ⟨rfl, fun hstopped => nomatch hfails hstopped⟩

/-- **Work passes** the watch that permits nothing without a running runtime. -/
theorem ends_work {operation : HostedOperation} (h : operation.isWork = true) :
    (watch r.isStarted).Guides operation.work r () (Ends r) := by
  cases operation with
  | start | finalize => cases h
  | runModule name code => exact ends_outcome (ends_runModule name code)
  | addCodeBundle location => exact ends_outcome (ends_addCodeBundle location)
  | runScript name source => exact ends_outcome (ends_runScript name source)

theorem of_mem {isOpen : Bool} {t : List Exchange} (h : (watch isOpen).Accepts () t) {e : Exchange}
    (he : e ∈ t) : isOpen = true ∧ e.call.needsRuntime = true := by
  obtain ⟨before, later, rfl⟩ := List.append_of_mem he
  exact h.permits_at

end Working

/-! ### The end -/

namespace Ending

/-- A watch that permits to ask whether the runtime is running, and to shut it down once; and
nothing if the runtime is not started. -/
def watch (isOpen : Bool) : Watch Bool where
  permits hasEnded _ c := isOpen = true ∧
    ((c.isQuestion = true ∧ c.needsRuntime = false) ∨ (c.shutsDown = true ∧ hasEnded = false))
  after hasEnded e := hasEnded || e.call.shutsDown

open Watch

theorem guides_finalize {r : BoundRuntime} :
    (watch r.isStarted).Guides HostedOperation.finalize.work r false
      fun _ r' _ => r'.isStarted = false := by
  refine Guides.finish (guides_current ?_)
  dsimp only
  cases hstarted : r.isStarted with
  | false => exact guides_pure hstarted
  | true =>
    refine guides_change ?_
    split
    · refine guides_ask ⟨rfl, .inl ⟨rfl, rfl⟩⟩ fun code => ?_
      split
      · exact guides_pure rfl
      · exact guides_ask ⟨rfl, .inr ⟨rfl, rfl⟩⟩ fun _ => guides_pure rfl
    · exact guides_ask ⟨rfl, .inr ⟨rfl, rfl⟩⟩ fun _ => guides_pure rfl

theorem count_le {isOpen hasEnded : Bool} {t : List Exchange}
    (h : (watch isOpen).Accepts hasEnded t) :
    t.countP (·.call.shutsDown) ≤ if hasEnded then 0 else 1 := by
  induction t generalizing hasEnded with
  | nil => exact Nat.zero_le _
  | cons e t ih =>
    have hrest : t.countP (·.call.shutsDown) ≤ if (hasEnded || e.call.shutsDown) then 0 else 1 :=
      ih h.2
    rw [List.countP_cons]
    cases hends : e.call.shutsDown with
    | false => simpa [hends] using hrest
    | true =>
      obtain ⟨hquestion, -⟩ | ⟨-, hnot⟩ := h.1.2
      · rw [EntryCall.isQuestion_of_shutsDown hends] at hquestion
        cases hquestion
      · simpa [hends, hnot] using hrest

theorem of_mem {isOpen hasEnded : Bool} {t : List Exchange}
    (h : (watch isOpen).Accepts hasEnded t) {e : Exchange} (he : e ∈ t) :
    isOpen = true ∧ e.call.needsRuntime = false ∧ e.initializes = false := by
  obtain ⟨before, later, rfl⟩ := List.append_of_mem he
  obtain ⟨hopen, hcall⟩ := h.permits_at
  refine ⟨hopen, ?_, Bool.eq_false_iff.mpr fun hinit => ?_⟩
  · exact hcall.elim (·.2) fun h => EntryCall.needsRuntime_of_shutsDown h.1
  · obtain ⟨-, hquestion, hends⟩ := Exchange.call_of_initializes hinit
    rw [hquestion, hends] at hcall
    simp at hcall

end Ending

/-! ### What an operation does -/

section
variable (respond : Dialogue.Responder σ) (r : BoundRuntime) (s : σ)

theorem count_le_of_none {t : List Exchange} (h : ∀ e ∈ t, ¬ e.call.shutsDown = true) :
    t.countP (·.call.shutsDown) ≤ 1 :=
  Nat.le_trans (Nat.le_of_eq (List.countP_eq_zero.mpr h)) (Nat.zero_le 1)

theorem start_carryOut (settings : StartSettings) :
    StartLog.watch.Accepts ⟨.preConfiguration, false, r.isStarted⟩
        ((HostedOperation.start settings).carryOut respond r s).exchanges ∧
      ((HostedOperation.start settings).carryOut respond r s).left.isStarted =
        (r.isStarted || ((HostedOperation.start settings).carryOut respond r s).exchanges.any
          (·.initializes)) := by
  have hguides : StartLog.watch.Guides (HostedOperation.start settings).work r
      ⟨.preConfiguration, false, r.isStarted⟩ fun _ r' g => r'.isStarted = g.isOpen :=
    StartLog.guides_start.finish
  obtain ⟨haccepts, hleft⟩ := hguides.carryOut respond s
  exact ⟨haccepts, hleft.trans StartLog.isOpen_afterAll⟩

theorem keepsProtocol_start (settings : StartSettings) :
    KeepsProtocol (r.isStarted = true) ((HostedOperation.start settings).carryOut respond r s) := by
  obtain ⟨haccepts, -⟩ := start_carryOut respond r s settings
  have hnone : ∀ e ∈ ((HostedOperation.start settings).carryOut respond r s).exchanges,
      ¬ e.call.shutsDown = true := by
    intro e he
    obtain ⟨before, later, hsplit⟩ := List.append_of_mem he
    rw [hsplit] at haccepts
    exact Bool.eq_false_iff.mp (StartLog.shutsDown_of_permits haccepts.permits_at)
  constructor
  case needs =>
    intro before e later hsplit hneeds
    rw [hsplit] at haccepts
    have hopen := haccepts.permits_at.1.resolve_left (Bool.not_eq_false _ ▸ hneeds)
    rw [StartLog.isOpen_afterAll] at hopen
    exact (Bool.or_eq_true_iff.mp hopen).imp_right List.any_eq_true.mp
  case notStarted => exact fun _ hwork => nomatch hwork
  case idle => exact fun _ hfinalize => nomatch hfinalize
  case shutsDown => exact fun e he hends => absurd hends (hnone e he)
  case once => exact count_le_of_none hnone
  case opens => exact fun _ => ⟨settings, rfl⟩
  case inOrder => exact fun _ _ => StartsInOrder.of_accepts haccepts

variable {operation : HostedOperation}

theorem keepsProtocol_work (hwork : operation.isWork = true) :
    KeepsProtocol (r.isStarted = true) (operation.carryOut respond r s) := by
  obtain ⟨haccepts, -, hstopped⟩ := (Working.ends_work hwork).carryOut respond s
  have hmem := fun e he => @Working.of_mem _ _ haccepts e he
  have hnone : ∀ e ∈ (operation.carryOut respond r s).exchanges, ¬ e.call.shutsDown = true := by
    intro e he hends
    have hneeds := (hmem e he).2
    rw [EntryCall.needsRuntime_of_shutsDown hends] at hneeds
    cases hneeds
  constructor
  case needs =>
    intro before e later hsplit _
    exact .inl (hmem e (hsplit ▸ by simp)).1
  case notStarted =>
    refine fun hclosed _ => ⟨hstopped (Bool.eq_false_iff.mpr hclosed), ?_⟩
    exact List.eq_nil_iff_forall_not_mem.mpr fun e he => hclosed (hmem e he).1
  case idle =>
    rintro - rfl
    cases hwork
  case shutsDown => exact fun e he hends => absurd hends (hnone e he)
  case once => exact count_le_of_none hnone
  case opens =>
    rintro ⟨e, he, hinit⟩
    have hneeds := (hmem e he).2
    rw [(Exchange.call_of_initializes hinit).1] at hneeds
    cases hneeds
  case inOrder =>
    rintro settings rfl
    cases hwork

theorem keepsProtocol_finalize :
    KeepsProtocol (r.isStarted = true) (HostedOperation.finalize.carryOut respond r s) := by
  obtain ⟨haccepts, -⟩ := Ending.guides_finalize.carryOut (r := r) respond s
  have hmem := fun e he => @Ending.of_mem _ _ _ haccepts e he
  constructor
  case needs =>
    intro before e later hsplit hneeds
    rw [(hmem e (hsplit ▸ by simp)).2.1] at hneeds
    cases hneeds
  case notStarted => exact fun _ hwork => nomatch hwork
  case idle =>
    exact fun hclosed _ => List.eq_nil_iff_forall_not_mem.mpr fun e he => hclosed (hmem e he).1
  case shutsDown => exact fun e he _ => ⟨(hmem e he).1, rfl⟩
  case once => exact Ending.count_le haccepts
  case opens =>
    rintro ⟨e, he, hinit⟩
    rw [(hmem e he).2.2] at hinit
    cases hinit
  case inOrder => exact fun _ hstart => nomatch hstart

variable (operation)

/-- **Every operation keeps to the protocol.** -/
theorem keepsProtocol_carryOut :
    KeepsProtocol (r.isStarted = true) (operation.carryOut respond r s) := by
  cases operation with
  | start settings => exact keepsProtocol_start respond r s settings
  | finalize => exact keepsProtocol_finalize respond r s
  | runModule | addCodeBundle | runScript => exact keepsProtocol_work respond r s rfl

/-- **A runtime counts as started** when it has just been initialised, or when it counted as
started before and has not been finalised. -/
theorem isStarted_carryOut : (operation.carryOut respond r s).left.isStarted = true ↔
    (operation.carryOut respond r s).Opens ∨ (r.isStarted = true ∧ operation ≠ .finalize) := by
  have hopens := (keepsProtocol_carryOut respond r s operation).opens
  have hwork (h : operation.isWork = true) : (operation.carryOut respond r s).left.isStarted =
      true ↔ (operation.carryOut respond r s).Opens ∨
        (r.isStarted = true ∧ operation ≠ .finalize) := by
    obtain ⟨-, hleft, -⟩ := (Working.ends_work h).carryOut (r := r) respond s
    have hother : operation ≠ .finalize := by
      rintro rfl
      cases h
    have hcloses : ¬ (operation.carryOut respond r s).Opens := fun hopen => by
      obtain ⟨settings, rfl⟩ := hopens hopen
      cases h
    rw [hleft]
    exact ⟨fun hstarted => .inr ⟨hstarted, hother⟩, fun h => (h.resolve_left hcloses).1⟩
  cases operation with
  | start settings =>
    rw [(start_carryOut respond r s settings).2, Bool.or_eq_true, List.any_eq_true]
    exact ⟨fun h => h.symm.imp_right fun hstarted => ⟨hstarted, nofun⟩,
      fun h => h.symm.imp_left (·.1)⟩
  | finalize =>
    obtain ⟨-, hleft⟩ := Ending.guides_finalize.carryOut (r := r) respond s
    refine ⟨fun hstarted => absurd hstarted (Bool.eq_false_iff.mp hleft), ?_⟩
    rintro (hopen | ⟨-, hother⟩)
    · obtain ⟨settings, hsettings⟩ := hopens hopen
      cases hsettings
    · exact absurd rfl hother
  | runModule | addCodeBundle | runScript => exact hwork rfl

end

/-! ## Sessions -/

/-- A window is open after some calls: one of them has initialised the runtime, and none of those
after it has been `finalize`. -/
def IsOpen (calls : List (HostedCall σ)) : Prop :=
  ∃ before call after, calls = before ++ call :: after ∧ call.Opens ∧
    ∀ c ∈ after, c.operation ≠ .finalize

theorem not_isOpen_nil : ¬ IsOpen ([] : List (HostedCall σ)) := by
  rintro ⟨before, call, after, h, -⟩
  exact List.append_ne_nil_of_right_ne_nil before (List.cons_ne_nil call after) h.symm

theorem isOpen_concat {calls : List (HostedCall σ)} {call : HostedCall σ} :
    IsOpen (calls ++ [call]) ↔ call.Opens ∨ (IsOpen calls ∧ call.operation ≠ .finalize) := by
  constructor
  · rintro ⟨before, opening, after, hsplit, hopens, hafter⟩
    rcases List.eq_nil_or_concat after with rfl | ⟨after, last, rfl⟩
    · obtain ⟨-, rfl⟩ := List.append_singleton_inj.mp hsplit
      exact .inl hopens
    · rw [List.concat_eq_append, ← List.cons_append, ← List.append_assoc] at hsplit
      obtain ⟨hcalls, rfl⟩ := List.append_singleton_inj.mp hsplit
      exact .inr ⟨⟨before, opening, after, hcalls, hopens, fun c hc => hafter c (by simp [hc])⟩,
        hafter call (by simp)⟩
  · rintro (hopens | ⟨⟨before, opening, after, rfl, hopens, hafter⟩, hcall⟩)
    · exact ⟨calls, call, [], rfl, hopens, List.forall_mem_nil _⟩
    · refine ⟨before, opening, after ++ [call], by simp, hopens, fun c hc => ?_⟩
      rcases List.mem_append.mp hc with hc | hc
      · exact hafter c hc
      · rwa [List.mem_singleton.mp hc]

variable {respond : Dialogue.Responder σ}

/-- **Every call keeps to the protocol**, with the window as the calls before it have left it: a
runtime counts as started exactly in a window. -/
theorem keepsProtocol_of_session (past : List (HostedCall σ))
    {operations : List HostedOperation} {r : BoundRuntime} {s : σ}
    {earlier later : List (HostedCall σ)} {call : HostedCall σ}
    (hpast : r.isStarted = true ↔ IsOpen past)
    (h : session respond operations r s = earlier ++ call :: later) :
    KeepsProtocol (IsOpen (past ++ earlier)) call := by
  induction operations generalizing past r s earlier with
  | nil => exact absurd h (by simp [session])
  | cons operation rest ih =>
    cases earlier with
    | nil =>
      obtain ⟨rfl, -⟩ := List.cons.inj h
      rw [List.append_nil, ← propext hpast]
      exact keepsProtocol_carryOut respond r s operation
    | cons first earlier =>
      -- after the first call, the runtime counts as started exactly if a window is open then
      obtain ⟨rfl, hrest⟩ := List.cons.inj h
      rw [List.append_cons]
      refine ih (past ++ [_]) ?_ hrest
      rw [isOpen_concat, isStarted_carryOut, hpast]
      rfl

/-- Only a start opens a window, and only `finalize` shuts a runtime down. -/
theorem operation_of_mem_session {operations : List HostedOperation} {r : BoundRuntime} {s : σ}
    {call : HostedCall σ} (h : call ∈ session respond operations r s) :
    (call.Opens → ∃ settings, call.operation = .start settings) ∧
      (call.ShutsDown → call.operation = .finalize) := by
  obtain ⟨operation, r', s', rfl⟩ := exists_carryOut_of_mem_session h
  have hkeeps := keepsProtocol_carryOut respond r' s' operation
  exact ⟨hkeeps.opens, fun ⟨e, he, hends⟩ => (hkeeps.shutsDown e he hends).2⟩

/-- What does not stand before an element, is not it, and is in the same list, stands after it. -/
theorem mem_of_append_cons_eq {α : Type} {front between before after : List α} {x y : α}
    (h : front ++ x :: between = before ++ y :: after) (hne : x ≠ y) (hafter : x ∉ after) :
    y ∈ between := by
  rcases List.append_eq_append_iff.mp h with ⟨rest, -, hrest⟩ | ⟨rest, -, hrest⟩
  · cases rest with
    | nil => exact absurd (List.cons.inj hrest).1 hne
    | cons z rest => exact (List.cons.inj hrest).2 ▸ by simp
  · cases rest with
    | nil => exact absurd (List.cons.inj hrest).1.symm hne
    | cons z rest => exact absurd ((List.cons.inj hrest).2 ▸ by simp) hafter

/-- **The protocol of a session.**  In every session of a runtime that has just been bound,
whatever is answered, entry points that need an initialised runtime are called only in a window;
outside it work fails and calls nothing, and neither does `finalize`; the runtime is shut down by
`finalize` only, in a window only, and at most once in each; and every start is in order. -/
theorem session_keeps_protocol (respond : Dialogue.Responder σ) (library : RuntimeLibrary)
    (version : UInt32) (home : Path) (operations : List HostedOperation) (s : σ)
    (earlier later : List (HostedCall σ)) (call : HostedCall σ)
    (h : session respond operations ⟨library, version, home, false⟩ s =
      earlier ++ call :: later) :
    KeepsProtocol (IsOpen earlier) call ∧
      ∀ front ended between, earlier = front ++ ended :: between → ended.ShutsDown →
        call.ShutsDown → ∃ c ∈ between, c.Opens := by
  have hnew : (⟨library, version, home, false⟩ : BoundRuntime).isStarted = true ↔
      IsOpen ([] : List (HostedCall σ)) := ⟨nofun, fun hopen => absurd hopen not_isOpen_nil⟩
  have hkeeps := keepsProtocol_of_session [] hnew h
  refine ⟨hkeeps, ?_⟩
  rintro front ended between hearlier hended ⟨e, he, hends⟩
  -- no `finalize` follows the start that has opened this window, so it comes after `ended`
  obtain ⟨before, opening, after, hsplit, hopens, hafter⟩ := (hkeeps.shutsDown e he hends).1
  rw [List.nil_append] at hsplit
  have hmem : ∀ c ∈ earlier, c ∈ session respond operations ⟨library, version, home, false⟩ s :=
    fun c hc => h ▸ List.mem_append_left _ hc
  have hfinalize : ended.operation = .finalize :=
    (operation_of_mem_session (hmem ended (hearlier ▸ by simp))).2 hended
  obtain ⟨settings, hstart⟩ :=
    (operation_of_mem_session (hmem opening (hsplit ▸ by simp))).1 hopens
  refine ⟨opening, mem_of_append_cons_eq (hearlier.symm.trans hsplit) ?_ fun hin =>
    hafter ended hin hfinalize, hopens⟩
  rintro rfl
  cases hfinalize.symm.trans hstart

/-- A start that cannot set its first marker. -/
def markerlessStart : HostedCall Simulation :=
  (HostedOperation.start sampleSettings).carryOut (Simulation.respond .empty) sampleRuntime
    (.fresh [⟨"PySys_SetObject", 0, .success⟩] 400 false)

/-- The end after that start. -/
def markerlessEnd : HostedCall Simulation :=
  HostedOperation.finalize.carryOut (Simulation.respond .empty) markerlessStart.left
    markerlessStart.after

/-- The general statement for the end: the start has failed, and the runtime is shut down. -/
theorem session_keeps_protocol_markerless :
    markerlessStart.result = .error (.callFailed .frozenMarker) ∧
      KeepsProtocol (IsOpen [markerlessStart]) markerlessEnd ∧ markerlessEnd.ShutsDown := by
  have hfails : markerlessStart.result = .error (.callFailed .frozenMarker) := by decide +kernel
  have hshutsDown : ∃ e ∈ markerlessEnd.exchanges, e.call.shutsDown = true := by decide +kernel
  have hkeeps := (session_keeps_protocol (Simulation.respond .empty) sampleRuntime.library 311
    .empty [.start sampleSettings, .finalize]
    (.fresh [⟨"PySys_SetObject", 0, .success⟩] 400 false) [markerlessStart] [] markerlessEnd rfl).1
  exact ⟨hfails, hkeeps, hshutsDown⟩

end Stowage
