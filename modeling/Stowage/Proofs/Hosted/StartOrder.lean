import Stowage.Proofs.Hosted.Starting

/-!
# The order of a start

A start goes through five phases (`StartPhase`).  A phase begins only when the one before it
has been completed and nothing has failed; once something has failed, only what cleans up is
still called.  A `StartLog` follows this, and also whether the runtime can be asked for what
needs an initialised runtime.  Every start passes the watch that keeps such a log
(`StartLog.guides_start`), and what passes it is in order (`StartsInOrder.of_accepts`).
-/

namespace Stowage

/-- A status that asks to exit is none of success. -/
theorem Status.isOk_of_isExit {s : Status} (h : s.isExit = true) : s.isOk = false := by
  have htype : s.type = 2 := of_decide_eq_true h
  simp [isOk, htype]

/-- The phases of a start. -/
inductive StartPhase where
  | preConfiguration
  | preInitialization
  | configuration
  | initialization
  | markers
  deriving DecidableEq

namespace StartPhase

/-- The place of a phase in the order. -/
def rank : StartPhase → Nat
  | preConfiguration => 0
  | preInitialization => 1
  | configuration => 2
  | initialization => 3
  | markers => 4

/-- The phase after a phase. -/
def next : StartPhase → StartPhase
  | preConfiguration => preInitialization
  | preInitialization => configuration
  | configuration => initialization
  | initialization | markers => markers

theorem rank_inj {p q : StartPhase} (h : p.rank = q.rank) : p = q := by
  cases p <;> cases q <;> first | rfl | cases h

theorem rank_le_next (p : StartPhase) : p.rank ≤ p.next.rank := by cases p <;> decide

theorem rank_next_le (p : StartPhase) : p.next.rank ≤ p.rank + 1 := by cases p <;> decide

end StartPhase

namespace EntryCall
variable {shape : AnswerShape}

/-- The phase to which a call in a start belongs. -/
def phase? : EntryCall shape → Option StartPhase
  | setFrozenFlag | isolatedPreConfig => some .preConfiguration
  | preInitialize _ => some .preInitialization
  | isolatedConfig _ | setString .. | decodeLocale _ | appendText .. | setArgv .. =>
    some .configuration
  | initializeFromConfig _ => some .initialization
  | makeLong _ | decodeFileName _ | setSysObject .. => some .markers
  | _ => none

/-- The phase of which a call is the last one. -/
def completes? : EntryCall shape → Option StartPhase
  | isolatedPreConfig => some .preConfiguration
  | preInitialize _ => some .preInitialization
  | setArgv .. => some .configuration
  | initializeFromConfig _ => some .initialization
  | _ => none

/-- A call that gives back what others have brought, or looks after an error. -/
def cleansUp : EntryCall shape → Bool
  | freeText _ | clearConfig _ | releaseObject _ | errorOccurred | clearError => true
  | _ => false

theorem phase_of_completes {c : EntryCall shape} {p : StartPhase} (h : c.completes? = some p) :
    c.phase? = some p := by
  cases c <;> first | exact h | cases h

theorem phase_of_cleansUp {c : EntryCall shape} (h : c.cleansUp = true) : c.phase? = none := by
  cases c <;> first | rfl | cases h

end EntryCall

/-- How far a start has come. -/
structure StartLog where
  phase : StartPhase
  hasFailed : Bool
  /-- The runtime is initialised. -/
  isOpen : Bool

namespace StartLog

/-- The log after an exchange. -/
def note (g : StartLog) (e : Exchange) : StartLog where
  phase := match e.call.completes? with
    | some p => p.next
    | none => g.phase
  hasFailed := g.hasFailed || e.fails
  isOpen := g.isOpen || e.initializes

/-- A call cleans up, or it belongs to the phase and nothing has failed; and what needs an
initialised runtime has one. -/
def watch : Watch StartLog where
  permits g _ c := (c.needsRuntime = false ∨ g.isOpen = true) ∧
    (c.cleansUp = true ∨ (c.phase? = some g.phase ∧ g.hasFailed = false))
  after := note

open Watch

variable {g : StartLog} {p : StartPhase} {isOpen : Bool} {r : BoundRuntime} {α : Type}

theorem permits_phase {shape : AnswerShape} {c : EntryCall shape} (hphase : c.phase? = some p)
    (hneeds : c.needsRuntime = false ∨ isOpen = true) : watch.permits ⟨p, false, isOpen⟩ c :=
  ⟨hneeds, .inr ⟨hphase, rfl⟩⟩

theorem permits_cleansUp {shape : AnswerShape} {c : EntryCall shape} (hclean : c.cleansUp = true)
    (hneeds : c.needsRuntime = false ∨ g.isOpen = true) : watch.permits g c :=
  ⟨hneeds, .inl hclean⟩

/-- No start shuts a runtime down. -/
theorem shutsDown_of_permits {shape : AnswerShape} {c : EntryCall shape} (h : watch.permits g c) :
    c.shutsDown = false := by
  rcases h.2 with hclean | ⟨hphase, -⟩
  · cases c <;> first | rfl | cases hclean
  · cases c <;> first | rfl | cases hphase

/-- Cleaning up changes nothing in the log. -/
theorem after_cleansUp (g : StartLog) {shape : AnswerShape} {c : EntryCall shape}
    (hclean : c.cleansUp = true) (answer : shape.Answer) : watch.after g ⟨c, answer⟩ = g := by
  obtain ⟨phase, failed, isOpen⟩ := g
  cases c <;> cases hclean <;> cases failed <;> cases isOpen <;> rfl

/-- A call within a phase may fail. -/
theorem after_phase {shape : AnswerShape} {c : EntryCall shape} (answer : shape.Answer)
    (hcompletes : c.completes? = none) :
    watch.after ⟨p, false, isOpen⟩ ⟨c, answer⟩ = ⟨p, Exchange.fails ⟨c, answer⟩, isOpen⟩ := by
  cases c <;> cases hcompletes <;> cases isOpen <;> rfl

/-- The last call of a phase leads to the next one. -/
theorem after_completes {shape : AnswerShape} {c : EntryCall shape} {answer : shape.Answer}
    {failed opened : Bool} (hcompletes : c.completes? = some p)
    (hfails : Exchange.fails ⟨c, answer⟩ = failed)
    (hopens : (isOpen || Exchange.initializes ⟨c, answer⟩) = opened) :
    watch.after ⟨p, false, isOpen⟩ ⟨c, answer⟩ = ⟨p.next, failed, opened⟩ := by
  subst hfails hopens
  cases c <;> cases hcompletes <;> rfl

/-! ## Every start passes -/

theorem guides_markEmbedded {r' : BoundRuntime}
    {Q : Except RuntimeError Unit → BoundRuntime → StartLog → Prop}
    (h : Q (.ok ()) r ⟨.preConfiguration, false, isOpen⟩) :
    watch.Guides r'.markEmbedded r ⟨.preConfiguration, false, isOpen⟩ Q := by
  unfold BoundRuntime.markEmbedded
  split
  · refine guides_ask_last (permits_phase rfl (.inl rfl)) fun _ => ?_
    rwa [after_phase _ rfl]
  · exact guides_pure h

theorem guides_prepare {settings : StartSettings}
    {Q : Except RuntimeError Unit → BoundRuntime → StartLog → Prop}
    (hok : Q (.ok ()) r ⟨.configuration, false, isOpen⟩)
    (hstopped : ∀ e g, g.isOpen = isOpen → Q (.error e) r g) :
    watch.Guides (BoundRuntime.prepare settings) r ⟨.preConfiguration, false, isOpen⟩ Q := by
  refine guides_ask (permits_phase rfl (.inl rfl)) fun isolated => ?_
  have hprepared : Exchange.fails ⟨.isolatedPreConfig, isolated⟩ = false := rfl
  rw [after_completes rfl hprepared (Bool.or_false _)]
  refine guides_ask (permits_phase rfl (.inl rfl)) fun status => ?_
  rw [after_completes rfl rfl (Bool.or_false _)]
  by_cases hno : (!status.isOk) = true
  · rw [if_pos hno]
    exact guides_fail (hstopped _ _ rfl)
  · have hdone : Exchange.fails ⟨.preInitialize
        (BoundRuntime.preConfigFor settings.options isolated), status⟩ = false :=
      Bool.eq_false_iff.mpr hno
    rw [if_neg hno, hdone]
    exact guides_pure hok

/-- Filling a record stays within the configuration, up to the last call. -/
theorem configures (isOpen : Bool) : watch.Configures (· = ⟨.configuration, false, isOpen⟩)
    (· = ⟨.initialization, false, isOpen⟩) (fun g => g.hasFailed = true ∧ g.isOpen = isOpen) := by
  have hcompletes : ∀ {shape : AnswerShape} {c : EntryCall shape}, c.configures = true →
      c.completes? = none := fun {_ c} hc => by cases c <;> cases hc <;> rfl
  constructor
  case permits =>
    rintro _ c g hc rfl
    cases c <;> cases hc <;> exact permits_phase rfl (.inl rfl)
  case succeeds =>
    rintro _ c answer g hc rfl hfails
    rw [after_phase _ (hcompletes hc), hfails]
  case fails =>
    rintro _ c answer g hc rfl hfails
    rw [after_phase _ (hcompletes hc), hfails]
    exact ⟨rfl, rfl⟩
  case frees => exact fun _ => permits_cleansUp rfl (.inl rfl)
  case good_freed =>
    rintro text g rfl
    exact after_cleansUp _ rfl _
  case bad_freed =>
    intro text g hg
    rwa [after_cleansUp _ rfl]
  case permits_argv =>
    rintro _ _ g rfl
    exact permits_phase rfl (.inl rfl)
  case argv_succeeds =>
    rintro record args answer g rfl hok
    have hfails : Exchange.fails ⟨.setArgv record args, answer⟩ = false := by
      simp [Exchange.fails, hok]
    exact after_completes rfl hfails (Bool.or_false _)
  case argv_fails =>
    rintro record args answer g rfl hno
    have hfails : Exchange.fails ⟨.setArgv record args, answer⟩ = true := by
      simp [Exchange.fails, hno]
    rw [after_completes rfl hfails (Bool.or_false _)]
    exact ⟨rfl, rfl⟩

theorem guides_bringUp {version : UInt32} {settings : StartSettings}
    {Q : Except RuntimeError Status → BoundRuntime → StartLog → Prop}
    (hstopped : ∀ e g, g.isOpen = isOpen → Q (.error e) r g)
    (hstatus : ∀ status, Q (.ok status) r ⟨.markers, !status.isOk, isOpen || status.isOk⟩) :
    watch.Guides (BoundRuntime.bringUp version settings) r ⟨.configuration, false, isOpen⟩ Q := by
  refine (configures isOpen).guides_bringUp (hstopped _ _ rfl)
    (fun record => ⟨?_, fun answer => ?_⟩) (fun record g hg => ⟨?_, fun status => ⟨?_, ?_⟩⟩)
    fun record g e hg => ⟨?_, ?_⟩
  -- the record is made
  · exact permits_phase rfl (.inl rfl)
  · exact after_phase _ rfl
  -- it is full, and used and cleared
  · subst hg
    exact permits_phase rfl (.inl rfl)
  · exact permits_cleansUp rfl (.inl rfl)
  · subst hg
    rw [after_cleansUp _ rfl, after_completes rfl rfl rfl]
    exact hstatus status
  -- it could not be filled, and is cleared only
  · exact permits_cleansUp rfl (.inl rfl)
  · rw [after_cleansUp _ rfl]
    rcases hg with rfl | ⟨-, hopen⟩
    · exact hstopped _ _ rfl
    · exact hstopped _ _ hopen

/-- After a failure of a marker there is only cleaning up. -/
theorem guides_dropAndFail {fault : CallFault}
    {Q : Except RuntimeError Unit → BoundRuntime → StartLog → Prop} (hopen : g.isOpen = true)
    (h : Q (.error (.callFailed fault)) r g) :
    watch.Guides (Hosted.dropAndFail fault) r g Q := by
  refine Guides.bind (guides_ask (permits_cleansUp rfl (.inr hopen)) fun code => ?_)
  rw [after_cleansUp _ rfl]
  by_cases hcode : code ≠ 0
  · rw [if_pos hcode]
    refine guides_ask_last (permits_cleansUp rfl (.inr hopen)) fun _ => ?_
    rw [after_cleansUp _ rfl]
    exact guides_fail h
  · rw [if_neg hcode]
    exact guides_pure (guides_fail h)

theorem guides_setMarker {name : String} {value : Pointer} {fault : CallFault}
    {Q : Except RuntimeError Unit → BoundRuntime → StartLog → Prop}
    (hok : Q (.ok ()) r ⟨.markers, false, true⟩)
    (hstopped : ∀ e g, g.isOpen = true → Q (.error e) r g) :
    watch.Guides (BoundRuntime.setMarker name (some value) fault) r ⟨.markers, false, true⟩ Q := by
  refine guides_ask (permits_phase rfl (.inr rfl)) fun code => ?_
  rw [after_phase _ rfl]
  refine guides_ask (permits_cleansUp rfl (.inr rfl)) fun _ => ?_
  rw [after_cleansUp _ rfl]
  by_cases hcode : code = 0
  · subst hcode
    exact guides_pure hok
  · rw [if_pos hcode]
    exact guides_dropAndFail rfl (hstopped _ _ rfl)

theorem guides_setMarkers {home : Path}
    {Q : Except RuntimeError Unit → BoundRuntime → StartLog → Prop}
    (h : ∀ result g, g.isOpen = true → Q result r g) :
    watch.Guides (BoundRuntime.setMarkers home) r ⟨.markers, false, true⟩ Q := by
  refine guides_pass (fun _ => ?_) fun _ => h _ _ rfl
  refine guides_ask (permits_phase rfl (.inr rfl)) fun one => ?_
  rw [after_phase _ rfl]
  cases one with
  | none => exact Guides.bind (guides_dropAndFail rfl (h _ _ rfl))
  | some one =>
    refine Guides.bind (guides_setMarker ?_ fun e g hopen => h _ _ hopen)
    refine guides_ask (permits_phase rfl (.inr rfl)) fun value => ?_
    rw [after_phase _ rfl]
    cases value with
    | none => exact guides_dropAndFail rfl (h _ _ rfl)
    | some value => exact guides_setMarker (h _ _ rfl) fun e g hopen => h _ _ hopen

theorem guides_conclude {settings : StartSettings} {status : Status}
    (hopen : r.isStarted = isOpen) :
    watch.Guides (BoundRuntime.conclude settings status) r
      ⟨.markers, !status.isOk, isOpen || status.isOk⟩ fun _ r' g => r'.isStarted = g.isOpen := by
  unfold BoundRuntime.conclude
  dsimp only
  by_cases hexit : status.isExit = true
  · rw [if_pos hexit]
    exact guides_pure (by rw [Status.isOk_of_isExit hexit, Bool.or_false, hopen])
  rw [if_neg hexit]
  cases hok : status.isOk with
  | false => exact Guides.bind (guides_fail (by rw [Bool.or_false, hopen]))
  | true =>
    rw [Bool.or_true]
    refine guides_change (Guides.bind (guides_setMarkers ?_))
    rintro (e | ⟨⟩) g hg
    · exact hg.symm
    · exact guides_pure hg.symm

/-- **Every start** keeps to the order, and in the end it is known whether the runtime is
initialised. -/
theorem guides_start {settings : StartSettings} :
    watch.Guides (BoundRuntime.start settings) r ⟨.preConfiguration, false, r.isStarted⟩
      fun _ r' g => r'.isStarted = g.isOpen := by
  rw [BoundRuntime.start_eq]
  refine guides_current (Guides.bind (guides_markEmbedded (Guides.bind ?_)))
  refine guides_prepare (Guides.bind ?_) fun e g hopen => hopen.symm
  exact guides_bringUp (fun e g hopen => hopen.symm) fun status => guides_conclude rfl

/-! ## What passes is in order -/

variable {t : List Exchange}

theorem hasFailed_afterAll : (watch.afterAll g t).hasFailed = (g.hasFailed || t.any (·.fails)) := by
  induction t generalizing g with
  | nil => exact (Bool.or_false _).symm
  | cons e t ih => exact ih.trans (Bool.or_assoc ..)

theorem isOpen_afterAll : (watch.afterAll g t).isOpen = (g.isOpen || t.any (·.initializes)) := by
  induction t generalizing g with
  | nil => exact (Bool.or_false _).symm
  | cons e t ih => exact ih.trans (Bool.or_assoc ..)

/-- A call leads to the next phase only if it is the last one of its own. -/
theorem phase_note {e : Exchange} (h : watch.permits g e.call) :
    (g.note e).phase = g.phase ∨
      (e.call.completes? = some g.phase ∧ (g.note e).phase = g.phase.next) := by
  cases hcompletes : e.call.completes? with
  | none => exact .inl (by rw [note, hcompletes])
  | some p =>
    have hphase := EntryCall.phase_of_completes hcompletes
    rcases h.2 with hclean | ⟨hp, -⟩
    · rw [EntryCall.phase_of_cleansUp hclean] at hphase
      cases hphase
    · obtain rfl : g.phase = p := Option.some.inj (hp.symm.trans hphase)
      exact .inr ⟨rfl, by rw [note, hcompletes]⟩

theorem rank_le_afterAll (h : watch.Accepts g t) :
    g.phase.rank ≤ (watch.afterAll g t).phase.rank := by
  induction t generalizing g with
  | nil => exact Nat.le_refl _
  | cons e t ih =>
    refine Nat.le_trans ?_ (ih h.2)
    show _ ≤ (g.note e).phase.rank
    rcases phase_note h.1 with hsame | ⟨-, hnext⟩
    · exact Nat.le_of_eq (congrArg StartPhase.rank hsame.symm)
    · exact hnext ▸ StartPhase.rank_le_next _

/-- No call belongs to a phase that has not been reached. -/
theorem rank_le_of_mem (h : watch.Accepts g t) {f : Exchange} (hf : f ∈ t) {q : StartPhase}
    (hq : f.call.phase? = some q) : q.rank ≤ (watch.afterAll g t).phase.rank := by
  induction t generalizing g with
  | nil => cases hf
  | cons e t ih =>
    rcases List.mem_cons.mp hf with rfl | hf
    · rcases h.1.2 with hclean | ⟨hp, -⟩
      · rw [EntryCall.phase_of_cleansUp hclean] at hq
        cases hq
      · obtain rfl : g.phase = q := Option.some.inj (hp.symm.trans hq)
        exact rank_le_afterAll h
    · exact ih h.2 hf

/-- Every phase that has been left has been completed. -/
theorem exists_completes (h : watch.Accepts g t) {q : StartPhase} (hfrom : g.phase.rank ≤ q.rank)
    (hto : q.rank < (watch.afterAll g t).phase.rank) : ∃ f ∈ t, f.call.completes? = some q := by
  induction t generalizing g with
  | nil => exact absurd hto (Nat.not_lt.mpr hfrom)
  | cons e t ih =>
    by_cases hself : e.call.completes? = some q
    · exact ⟨e, List.mem_cons_self, hself⟩
    · have hreached : (g.note e).phase.rank ≤ q.rank := by
        rcases phase_note h.1 with hsame | ⟨hcompletes, hnext⟩
        · rwa [hsame]
        · have hne : g.phase.rank ≠ q.rank := fun heq =>
            hself (StartPhase.rank_inj heq ▸ hcompletes)
          have := StartPhase.rank_next_le g.phase
          rw [hnext]
          omega
      obtain ⟨f, hf, hcompletes⟩ := ih h.2 hreached hto
      exact ⟨f, List.mem_cons_of_mem _ hf, hcompletes⟩

end StartLog

/-- The calls of a start are in order: each belongs to a phase or cleans up, and when one belongs to
a phase, nothing has failed before, no later phase has begun, and every earlier phase has been
completed. -/
structure StartsInOrder (t : List Exchange) : Prop where
  only : ∀ e ∈ t, e.call.phase?.isSome = true ∨ e.call.cleansUp = true
  succeeded : ∀ before e later p, t = before ++ e :: later → e.call.phase? = some p →
    ∀ f ∈ before, f.fails = false
  ordered : ∀ before e later p, t = before ++ e :: later → e.call.phase? = some p →
    ∀ f ∈ before, ∀ q, f.call.phase? = some q → q.rank ≤ p.rank
  completed : ∀ before e later p, t = before ++ e :: later → e.call.phase? = some p →
    ∀ q : StartPhase, q.rank < p.rank → ∃ f ∈ before, f.call.completes? = some q

/-- **What passes the log of a start** is in order. -/
theorem StartsInOrder.of_accepts {t : List Exchange} {isOpen : Bool}
    (h : StartLog.watch.Accepts ⟨.preConfiguration, false, isOpen⟩ t) : StartsInOrder t := by
  have hphase : ∀ before e later p, t = before ++ e :: later → e.call.phase? = some p →
      (StartLog.watch.afterAll ⟨.preConfiguration, false, isOpen⟩ before).phase = p ∧
        (StartLog.watch.afterAll ⟨.preConfiguration, false, isOpen⟩ before).hasFailed = false := by
    rintro before e later p rfl hp
    rcases h.permits_at.2 with hclean | ⟨hphase, hfailed⟩
    · rw [EntryCall.phase_of_cleansUp hclean] at hp
      cases hp
    · exact ⟨Option.some.inj (hphase.symm.trans hp), hfailed⟩
  constructor
  case only =>
    intro e he
    obtain ⟨before, later, rfl⟩ := List.append_of_mem he
    refine h.permits_at.2.symm.imp_left fun hp => ?_
    rw [hp.1]
    rfl
  case succeeded =>
    intro before e later p ht hp f hf
    have hfailed := (hphase before e later p ht hp).2
    rw [StartLog.hasFailed_afterAll, Bool.false_or, List.any_eq_false] at hfailed
    exact Bool.eq_false_iff.mpr (hfailed f hf)
  case ordered =>
    rintro before e later p rfl hp f hf q hq
    rw [← (hphase before e later p rfl hp).1]
    exact StartLog.rank_le_of_mem h.left hf hq
  case completed =>
    rintro before e later p rfl hp q hq
    rw [← (hphase before e later p rfl hp).1] at hq
    exact StartLog.exists_completes h.left (Nat.zero_le _) hq

end Stowage
