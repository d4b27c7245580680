import Stowage.Proofs.Hosted.Starting

/-!
# References

An object that an entry point gives belongs to the caller until it is released; one that is
lent does not.  A `Ledger` follows a dialogue: which objects are owned and which are lent, and
whether an error may be pending.  All five operations pass the watch that lets only owned
objects be released and only owned or lent objects be used, and leave nothing owned and nothing
pending (`Ledger.guides_work`).
-/

namespace Stowage

/-! ## Objects in a dialogue -/

namespace EntryCall
variable {shape : AnswerShape}

/-- The object that a call gives back to the runtime. -/
def released? : EntryCall shape → Option Pointer
  | releaseObject object => some object
  | _ => none

/-- The answer is an object that belongs to the caller. -/
def gives : EntryCall shape → Bool
  | makeLong _ | decodeFileName _ | readObject _ | executeModule .. | compile .. | evaluate .. =>
    true
  | _ => false

/-- The answer is an object that goes on belonging to the runtime. -/
def lends : EntryCall shape → Bool
  | getSysObject _ | addModule _ | moduleDict _ => true
  | _ => false

/-- The objects that a call passes to the runtime. -/
def uses : EntryCall shape → List Pointer
  | releaseObject object => [object]
  | evaluate code globals locals => code :: (globals.toList ++ locals.toList)
  | executeModule _ code => [code]
  | moduleDict module => [module]
  | setSysObject _ value => [value]
  | setAttribute object _ value => [object, value]
  | appendItem list item => [list, item]
  | _ => []

/-- A call after which no error is pending. -/
def endsError : EntryCall shape → Bool
  | printError | clearError => true
  | _ => false

/-- A call that raises no error, even if it reports failure. -/
def raisesNone : EntryCall shape → Bool
  | releaseObject _ | moduleDict _ | getSysObject _ => true
  | _ => false

/-- A call that may leave an error pending.  Errors belong to a runtime that is initialised: what
configures, initialises or shuts down a runtime reports in its answer only. -/
def mayRaise (c : EntryCall shape) : Bool := c.needsRuntime && !c.raisesNone

end EntryCall

namespace Exchange

/-- The object that the caller is given. -/
def given? : Exchange → Option Pointer
  | @mk .pointer c answer => if c.gives then answer else none
  | _ => none

/-- The object that the caller is lent. -/
def lent? : Exchange → Option Pointer
  | @mk .pointer c answer => if c.lends then answer else none
  | _ => none

/-- Whether an error is pending, if that has been asked. -/
def tellsPending? : Exchange → Option Bool
  | @mk _ .errorOccurred code => some (code != 0)
  | _ => none

end Exchange

/-- What a caller owns, what he has been lent, and whether an error may be pending. -/
structure Ledger where
  owned : List Pointer
  lent : List Pointer
  mayPend : Bool

namespace Ledger

/-- The ledger after an exchange. -/
def note (g : Ledger) (e : Exchange) : Ledger where
  owned := e.given?.toList ++ match e.call.released? with
    | some p => g.owned.erase p
    | none => g.owned
  lent := e.lent?.toList ++ g.lent
  mayPend := match e.tellsPending? with
    | some found => found
    | none => !e.call.endsError && (g.mayPend || (e.call.mayRaise && e.fails))

/-- Only what is owned may be released, and only what is owned or lent may be used. -/
def watch : Watch Ledger where
  permits g _ c := (∀ p, c.released? = some p → p ∈ g.owned) ∧
    ∀ p ∈ c.uses, p ∈ g.owned ∨ p ∈ g.lent
  after := note

/-- Nothing is owned, and no error is pending. -/
def IsSettled (g : Ledger) : Prop := g.owned = [] ∧ g.mayPend = false

open Watch

variable {owned lent : List Pointer} {pend : Bool} {r : BoundRuntime} {α : Type}

/-- A call without objects is permitted. -/
theorem permits_plain {g : Ledger} {shape : AnswerShape} {c : EntryCall shape}
    (hreleased : c.released? = none) (huses : c.uses = []) : watch.permits g c := by
  refine ⟨fun p hp => ?_, fun p hp => ?_⟩
  · rw [hreleased] at hp
    cases hp
  · rw [huses] at hp
    cases hp

/-- A call that is passed objects is permitted if it releases none and they are there. -/
theorem permits_uses {g : Ledger} {shape : AnswerShape} {c : EntryCall shape}
    (hreleased : c.released? = none) (huses : ∀ p ∈ c.uses, p ∈ g.owned ∨ p ∈ g.lent) :
    watch.permits g c := by
  refine ⟨fun p hp => ?_, huses⟩
  rw [hreleased] at hp
  cases hp

/-- A call that gives an object: with null an error may be pending, else the object is owned. -/
theorem guides_give {Q : Except RuntimeError α → BoundRuntime → Ledger → Prop}
    {c : EntryCall .pointer} {f : Option Pointer → Hosted α} (hc : c.gives = true)
    (huses : ∀ p ∈ c.uses, p ∈ owned ∨ p ∈ lent)
    (hnone : watch.Guides (f none) r ⟨owned, lent, true⟩ Q)
    (hsome : ∀ object, watch.Guides (f (some object)) r ⟨object :: owned, lent, false⟩ Q) :
    watch.Guides (Hosted.ask c >>= f) r ⟨owned, lent, false⟩ Q := by
  have hreleased : c.released? = none := by
    cases c <;> cases hc <;> rfl
  refine guides_ask (permits_uses hreleased huses) fun answer => ?_
  have hnote : note ⟨owned, lent, false⟩ ⟨c, answer⟩ =
      ⟨answer.toList ++ owned, lent, answer.isNone⟩ := by
    cases c <;> cases hc <;> cases answer <;> rfl
  show watch.Guides (f answer) r (note _ _) Q
  rw [hnote]
  cases answer with
  | none => exact hnone
  | some object => exact hsome object

/-- What is owned can be released. -/
theorem guides_release {Q : Except RuntimeError α → BoundRuntime → Ledger → Prop}
    {left : List Pointer} {p : Pointer} {f : Unit → Hosted α} (hp : p ∈ owned)
    (herase : owned.erase p = left) (h : watch.Guides (f ()) r ⟨left, lent, pend⟩ Q) :
    watch.Guides (Hosted.ask (.releaseObject p) >>= f) r ⟨owned, lent, pend⟩ Q := by
  refine guides_ask ⟨fun q hq => ?_, fun q hq => .inl ?_⟩ fun _ => ?_
  · rwa [← Option.some.inj hq]
  · rwa [List.mem_singleton.mp hq]
  · have hnote : note ⟨owned, lent, pend⟩ ⟨.releaseObject p, ()⟩ = ⟨left, lent, pend⟩ := by
      simp [note, Exchange.given?, Exchange.lent?, Exchange.tellsPending?, EntryCall.released?,
        EntryCall.endsError, EntryCall.mayRaise, EntryCall.raisesNone, herase]
    show watch.Guides (f ()) r (note _ _) Q
    rwa [hnote]

/-- The object owned last can be released. -/
theorem guides_release_head {Q : Except RuntimeError α → BoundRuntime → Ledger → Prop}
    {p : Pointer} {f : Unit → Hosted α} (h : watch.Guides (f ()) r ⟨owned, lent, pend⟩ Q) :
    watch.Guides (Hosted.ask (.releaseObject p) >>= f) r ⟨p :: owned, lent, pend⟩ Q :=
  guides_release List.mem_cons_self (List.erase_cons_head ..) h

/-- The object owned last but one can be released. -/
theorem guides_release_second {Q : Except RuntimeError α → BoundRuntime → Ledger → Prop}
    {p q : Pointer} {f : Unit → Hosted α}
    (h : watch.Guides (f ()) r ⟨q :: owned, lent, pend⟩ Q) :
    watch.Guides (Hosted.ask (.releaseObject p) >>= f) r ⟨q :: p :: owned, lent, pend⟩ Q := by
  refine guides_release (by simp) ?_ h
  -- the two may be the same object, owned twice
  by_cases hq : q = p <;> simp [hq]

section
variable {Q : Except RuntimeError Unit → BoundRuntime → Ledger → Prop}

/-- After a look at what is pending, and a call that ends it, nothing is pending. -/
theorem guides_ifPending {c : EntryCall .done} (hc : c = .printError ∨ c = .clearError)
    (h : Q (.ok ()) r ⟨owned, lent, false⟩) :
    watch.Guides (do if (← Hosted.ask .errorOccurred) ≠ 0 then Hosted.ask c) r
      ⟨owned, lent, pend⟩ Q := by
  refine guides_ask (permits_plain rfl rfl) fun code => ?_
  by_cases hcode : code = 0
  · subst hcode
    exact guides_pure h
  · rw [if_pos hcode]
    rcases hc with rfl | rfl
    · exact guides_ask_last (permits_plain rfl rfl) fun _ => h
    · exact guides_ask_last (permits_plain rfl rfl) fun _ => h

theorem guides_dropError (h : Q (.ok ()) r ⟨owned, lent, false⟩) :
    watch.Guides Hosted.dropError r ⟨owned, lent, pend⟩ Q := guides_ifPending (.inr rfl) h

theorem guides_reportError (h : Q (.ok ()) r ⟨owned, lent, false⟩) :
    watch.Guides Hosted.reportError r ⟨owned, lent, pend⟩ Q := guides_ifPending (.inl rfl) h

theorem guides_reportAndFail {e : RuntimeError} (h : Q (.error e) r ⟨owned, lent, false⟩) :
    watch.Guides (do Hosted.reportError; Hosted.fail e) r ⟨owned, lent, pend⟩ Q :=
  Guides.bind (guides_reportError (guides_fail h))

theorem guides_dropAndFail {fault : CallFault}
    (h : Q (.error (.callFailed fault)) r ⟨owned, lent, false⟩) :
    watch.Guides (Hosted.dropAndFail fault) r ⟨owned, lent, pend⟩ Q :=
  Guides.bind (guides_dropError (guides_fail h))

/-! ## Start -/

/-- A marker is released whether or not it can be set. -/
theorem guides_setMarker {name : String} {value : Pointer} {fault : CallFault}
    (h : ∀ result, Q result r ⟨owned, lent, false⟩) :
    watch.Guides (BoundRuntime.setMarker name (some value) fault) r
      ⟨value :: owned, lent, false⟩ Q := by
  refine guides_ask (permits_uses rfl fun p hp => .inl ?_) fun code => ?_
  · exact List.mem_cons.mpr (.inl (List.mem_singleton.mp hp))
  refine guides_release_head ?_
  by_cases hcode : code = 0
  · subst hcode
    exact guides_pure (h _)
  · rw [if_pos hcode]
    exact guides_dropAndFail (h _)

theorem guides_setMarkers {home : Path} (h : ∀ result, Q result r ⟨owned, lent, false⟩) :
    watch.Guides (BoundRuntime.setMarkers home) r ⟨owned, lent, false⟩ Q := by
  refine guides_pass (fun _ => ?_) fun _ => h _
  refine guides_give rfl nofun (Guides.bind (guides_dropAndFail (h _))) fun one => ?_
  refine Guides.bind (guides_setMarker ?_)
  rintro (e | ⟨⟩)
  · exact h _
  exact guides_give rfl nofun (guides_dropAndFail (h _)) fun value => guides_setMarker h

/-! ## Work of a running runtime -/

/-- The name of the file is released whether or not it can be set. -/
theorem guides_setFileName {main : Pointer} {file : String} (hmain : main ∈ lent)
    (h : Q (.ok ()) r ⟨owned, lent, false⟩) :
    watch.Guides (BoundRuntime.setFileName main file) r ⟨owned, lent, false⟩ Q := by
  refine guides_give rfl nofun (guides_dropError h) fun value => ?_
  refine guides_ask (permits_uses rfl fun p hp => ?_) fun code => ?_
  · obtain rfl | rfl : p = main ∨ p = value := by simpa [EntryCall.uses] using hp
    · exact .inr hmain
    · exact .inl List.mem_cons_self
  by_cases hcode : code = 0
  · subst hcode
    exact guides_release_head (guides_pure h)
  · rw [if_pos hcode]
    exact Guides.bind (guides_dropError (guides_release_head (guides_pure h)))

end

/-! ## The five operations -/

theorem guides_runModule {name : String} {code : Bytes} :
    watch.Guides (BoundRuntime.runModule name code) r ⟨[], lent, false⟩
      fun _ _ g => g.IsSettled := by
  refine guides_requireStarted (fun _ => ?_) fun _ => ⟨rfl, rfl⟩
  refine guides_pass (fun _ => ?_) fun _ => ⟨rfl, rfl⟩
  refine guides_give rfl nofun (guides_reportAndFail ⟨rfl, rfl⟩) fun object => ?_
  refine guides_give rfl (fun p hp => .inl hp) ?_ fun module => ?_
  · exact guides_release_head (guides_reportAndFail ⟨rfl, rfl⟩)
  · exact guides_release_second (guides_release_head (guides_pure ⟨rfl, rfl⟩))

theorem guides_addCodeBundle {location : String} :
    watch.Guides (BoundRuntime.addCodeBundle location) r ⟨[], lent, false⟩
      fun _ _ g => g.IsSettled := by
  refine guides_requireStarted (fun _ => ?_) fun _ => ⟨rfl, rfl⟩
  refine guides_pass (fun _ => ?_) fun _ => ⟨rfl, rfl⟩
  refine guides_ask (permits_plain rfl rfl) fun searchPath => ?_
  cases searchPath with
  | none => exact guides_fail ⟨rfl, rfl⟩
  | some searchPath =>
    show watch.Guides _ r ⟨[], searchPath :: lent, false⟩ _
    refine guides_give rfl nofun (guides_dropAndFail ⟨rfl, rfl⟩) fun entry => ?_
    refine guides_ask (permits_uses rfl fun p hp => ?_) fun code => guides_release_head ?_
    · obtain rfl | rfl : p = searchPath ∨ p = entry := by simpa [EntryCall.uses] using hp
      · exact .inr List.mem_cons_self
      · exact .inl List.mem_cons_self
    by_cases hcode : code = 0
    · subst hcode
      exact guides_pure ⟨rfl, rfl⟩
    · rw [if_pos hcode]
      exact guides_dropAndFail ⟨rfl, rfl⟩

theorem guides_evaluateIn {main code : Pointer} {name : String} (hmain : main ∈ lent) :
    watch.Guides (BoundRuntime.evaluateIn main code name) r ⟨[code], lent, false⟩
      fun _ _ g => g.IsSettled := by
  refine guides_ask (permits_uses rfl fun p hp => ?_) fun globals => ?_
  · exact .inr (List.mem_singleton.mp hp ▸ hmain)
  show watch.Guides _ r ⟨[code], globals.toList ++ lent, false⟩ _
  refine guides_give rfl (fun p hp => ?_) ?_ fun result => ?_
  · obtain rfl | hglobals : p = code ∨ p ∈ globals.toList := by simpa [EntryCall.uses] using hp
    · exact .inl List.mem_cons_self
    · exact .inr (List.mem_append_left _ hglobals)
  · exact guides_release_head (guides_reportAndFail ⟨rfl, rfl⟩)
  · exact guides_release_second (guides_release_head (guides_pure ⟨rfl, rfl⟩))

theorem guides_runScript {name : String} {source : Bytes} :
    watch.Guides (BoundRuntime.runScript name source) r ⟨[], lent, false⟩
      fun _ _ g => g.IsSettled := by
  refine guides_requireStarted (fun _ => ?_) fun _ => ⟨rfl, rfl⟩
  refine guides_passSource (fun _ => guides_current ?_) fun _ => ⟨rfl, rfl⟩
  refine guides_pass (fun _ => ?_) fun _ => ⟨rfl, rfl⟩
  refine guides_give rfl nofun (guides_reportAndFail ⟨rfl, rfl⟩) fun code => ?_
  refine guides_ask (permits_plain rfl rfl) fun main => ?_
  cases main with
  | none => exact guides_release_head (guides_reportAndFail ⟨rfl, rfl⟩)
  | some main =>
    have hmain : main ∈ main :: lent := List.mem_cons_self
    exact Guides.bind (guides_setFileName hmain (guides_evaluateIn hmain))

/-- What is said of a runtime that need not be initialised is permitted. -/
theorem permits_of_idle {g : Ledger} {shape : AnswerShape} {c : EntryCall shape}
    (hc : c.needsRuntime = false) : watch.permits g c := by
  cases c <;> cases hc <;> exact permits_plain rfl rfl

/-- It is about no object and raises no error. -/
theorem after_of_idle (g : Ledger) {shape : AnswerShape} {c : EntryCall shape}
    (hc : c.needsRuntime = false) (answer : shape.Answer) :
    watch.after g ⟨c, answer⟩ = g := by
  obtain ⟨owned, lent, pend⟩ := g
  cases c <;> cases hc <;> cases pend <;> rfl

theorem guides_finalize :
    watch.Guides BoundRuntime.finalize r ⟨[], lent, false⟩ fun _ _ g => g.IsSettled := by
  refine guides_current ?_
  dsimp only
  split
  · exact guides_pure ⟨rfl, rfl⟩
  refine guides_change ?_
  split
  · refine guides_ask (permits_of_idle rfl) fun code => ?_
    split
    · exact guides_pure ⟨rfl, rfl⟩
    · exact guides_ask (permits_of_idle rfl) fun _ => guides_pure ⟨rfl, rfl⟩
  · exact guides_ask (permits_of_idle rfl) fun _ => guides_pure ⟨rfl, rfl⟩

/-- Filling a record changes nothing in the ledger. -/
theorem configures (g : Ledger) : watch.Configures (· = g) (· = g) (· = g) := by
  have hidle : ∀ {shape : AnswerShape} {c : EntryCall shape}, c.configures = true →
      c.needsRuntime = false := fun {_ c} hc => by cases c <;> cases hc <;> rfl
  constructor
  case permits => exact fun c _ hc _ => permits_of_idle (hidle hc)
  case succeeds => exact fun hc hg _ => (after_of_idle _ (hidle hc) _).trans hg
  case fails => exact fun hc hg _ => (after_of_idle _ (hidle hc) _).trans hg
  case frees => exact fun _ => permits_of_idle rfl
  case good_freed => exact fun hg => (after_of_idle _ rfl _).trans hg
  case bad_freed => exact fun hg => (after_of_idle _ rfl _).trans hg
  case permits_argv => exact fun _ => permits_of_idle rfl
  case argv_succeeds => exact fun hg _ => (after_of_idle _ rfl _).trans hg
  case argv_fails => exact fun hg _ => (after_of_idle _ rfl _).trans hg

/-- Up to the initialisation the ledger does not change. -/
theorem guides_bringUp {version : UInt32} {settings : StartSettings} {g : Ledger}
    {Q : Except RuntimeError Status → BoundRuntime → Ledger → Prop} (h : ∀ result, Q result r g) :
    watch.Guides (BoundRuntime.bringUp version settings) r g Q := by
  refine (configures g).guides_bringUp (h _) (fun record => ⟨permits_of_idle rfl, fun answer => ?_⟩)
    (fun record g' hg => ⟨permits_of_idle rfl, fun status => ⟨permits_of_idle rfl, ?_⟩⟩)
    fun record g' e hg => ⟨permits_of_idle rfl, ?_⟩
  · exact after_of_idle _ rfl _
  · rw [after_of_idle _ rfl, after_of_idle _ rfl, hg]
    exact h _
  · rw [after_of_idle _ rfl, or_self_iff.mp hg]
    exact h _

theorem guides_markEmbedded {r' : BoundRuntime} {g : Ledger}
    {Q : Except RuntimeError Unit → BoundRuntime → Ledger → Prop} (h : Q (.ok ()) r g) :
    watch.Guides r'.markEmbedded r g Q := by
  unfold BoundRuntime.markEmbedded
  split
  · refine guides_ask_last (permits_of_idle rfl) fun _ => ?_
    rwa [after_of_idle _ rfl]
  · exact guides_pure h

theorem guides_prepare {settings : StartSettings} {g : Ledger}
    {Q : Except RuntimeError Unit → BoundRuntime → Ledger → Prop} (h : ∀ result, Q result r g) :
    watch.Guides (BoundRuntime.prepare settings) r g Q := by
  refine guides_ask (permits_of_idle rfl) fun isolated => ?_
  refine guides_ask (permits_of_idle rfl) fun status => ?_
  rw [after_of_idle _ rfl, after_of_idle _ rfl]
  by_cases hno : (!status.isOk) = true
  · rw [if_pos hno]
    exact guides_fail (h _)
  · rw [if_neg hno]
    exact guides_pure (h _)

theorem guides_conclude {settings : StartSettings} {status : Status} :
    watch.Guides (BoundRuntime.conclude settings status) r ⟨[], lent, false⟩
      fun _ _ g => g.IsSettled := by
  unfold BoundRuntime.conclude
  dsimp only
  split
  · exact guides_pure ⟨rfl, rfl⟩
  split
  · exact Guides.bind (guides_fail ⟨rfl, rfl⟩)
  · refine guides_change (Guides.bind (guides_setMarkers ?_))
    rintro (e | ⟨⟩)
    · exact ⟨rfl, rfl⟩
    · exact guides_pure ⟨rfl, rfl⟩

theorem guides_start {settings : StartSettings} :
    watch.Guides (BoundRuntime.start settings) r ⟨[], lent, false⟩ fun _ _ g => g.IsSettled := by
  rw [BoundRuntime.start_eq]
  refine guides_current (Guides.bind (guides_markEmbedded (Guides.bind (guides_prepare ?_))))
  rintro (e | ⟨⟩)
  · exact ⟨rfl, rfl⟩
  refine Guides.bind (guides_bringUp ?_)
  rintro (e | status)
  · exact ⟨rfl, rfl⟩
  · exact guides_conclude

/-- **Every operation** releases what it has been given and leaves no error pending. -/
theorem guides_work (operation : HostedOperation) :
    watch.Guides operation.work r ⟨[], [], false⟩ fun _ _ g => g.IsSettled := by
  cases operation with
  | start settings => exact guides_start.finish
  | runModule name code => exact guides_runModule.finish
  | addCodeBundle location => exact guides_addCodeBundle.finish
  | runScript name source => exact guides_runScript.finish
  | finalize => exact guides_finalize.finish

end Ledger

end Stowage
