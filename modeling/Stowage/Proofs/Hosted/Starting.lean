import Stowage.Proofs.Hosted.Session

/-!
# The steps of a start

A start marks the runtime as embedded, prepares it, initialises it with a record that is made,
filled and cleared for that, and sets the markers (`BoundRuntime.start_eq`).

Filling the record is a dialogue of its own.  Whatever is answered, its calls are those that
configure (`EntryCall.configures`), the last one that sets the command line, and those that
free what another has brought; the first that fails is the last that configures.
`Watch.Configures` says what this asks of a watch.  A watch that meets it is passed by all
of it (`Configures.guides_bringUp`), so none has to look into the filling.
-/

namespace Stowage

/-- Initialises a runtime with a record that is made for it. -/
def initialization (version : UInt32) (settings : StartSettings) :
    Dialogue (Except RuntimeError Status) :=
  withConfiguration version settings fun record => .ask (.initializeFromConfig record) .done

namespace BoundRuntime

open Hosted

/-- Marks the runtime as embedded, if it can be marked. -/
def markEmbedded (r : BoundRuntime) : Hosted Unit :=
  if r.hasFrozenFlag then ask .setFrozenFlag else pure ()

/-- Initialises the runtime, or fails. -/
def bringUp (version : UInt32) (settings : StartSettings) : Hosted Status := do
  match ← (initialization version settings : Dialogue (Except RuntimeError Status)) with
  | .error e => fail e
  | .ok status => pure status

/-- Ends a start by the status of the initialisation. -/
def conclude (settings : StartSettings) (status : Status) : Hosted StartOutcome := do
  if status.isExit then return .exit status.exitCode
  if !status.isOk then fail (.start status)
  change fun r => { r with isStarted := true, home := settings.home }
  setMarkers settings.home
  return .running

theorem start_eq (settings : StartSettings) : start settings = (do
    let r ← current
    r.markEmbedded
    prepare settings
    let status ← bringUp r.version settings
    conclude settings status) := by
  unfold start
  refine bind_congr fun r => ?_
  dsimp only
  -- the result of the initialisation is looked at in `bringUp`, not behind it
  have hrest : (do
      prepare settings
      let configured ← (withConfiguration r.version settings fun record =>
        .ask (.initializeFromConfig record) .done : Dialogue (Except RuntimeError Status))
      match configured with
      | .error e => fail e
      | .ok status => conclude settings status) = (do
      prepare settings
      let status ← bringUp r.version settings
      conclude settings status) := by
    refine bind_congr fun _ => ?_
    rw [bringUp, bind_assoc]
    refine bind_congr fun configured => ?_
    cases configured <;> rfl
  rw [← hrest]
  by_cases hflag : r.hasFrozenFlag = true
  · rw [markEmbedded, if_pos hflag, if_pos hflag]
    rfl
  · rw [markEmbedded, if_neg hflag, if_neg hflag]
    rfl
end BoundRuntime

/-- A call that fills a part of a record, other than the last one. -/
def EntryCall.configures {shape : AnswerShape} : EntryCall shape → Bool
  | setString .. | decodeLocale _ | appendText .. => true
  | _ => false

namespace Watch

variable {γ α β : Type} {w : Watch γ} {g : γ} {record : Words}

/-! ## Rules for filling -/

section
variable {Q : Except RuntimeError β → Words → γ → Prop}

theorem guides_askFilling {shape : AnswerShape} {c : EntryCall shape}
    {f : shape.Answer → Filling β} (hc : w.permits g c)
    (hf : ∀ answer, w.Guides (f answer) record (w.after g ⟨c, answer⟩) Q) :
    w.Guides (Filling.ask c >>= f) record g Q := ⟨hc, hf⟩

theorem guides_askOnRecord {call : Words → EntryCall .statusAndRecord} {f : Status → Filling β}
    (hc : w.permits g (call record))
    (hf : ∀ answer, w.Guides (f answer.1) answer.2 (w.after g ⟨call record, answer⟩) Q) :
    w.Guides (Filling.askOnRecord call >>= f) record g Q := ⟨hc, hf⟩

theorem guides_modify {change : Words → Words} {f : Unit → Filling β}
    (h : w.Guides (f ()) (change record) g Q) :
    w.Guides ((modify change : Filling Unit) >>= f) record g Q := h

theorem guides_passFilling {text : String} {f : String → Filling β}
    (hok : '\x00' ∉ text.toList → w.Guides (f text) record g Q)
    (hnul : '\x00' ∈ text.toList → Q (.error (.nulInText text)) record g) :
    w.Guides (Filling.pass text >>= f) record g Q := guides_passable hok hnul

theorem guides_check {what : String} {status : Status}
    {Q : Except RuntimeError Unit → Words → γ → Prop}
    (hok : status.isOk = true → Q (.ok ()) record g)
    (hrefused : status.isOk = false →
      Q (.error (.configuration (.refused what status))) record g) :
    w.Guides (Filling.check what status) record g Q := by
  cases h : status.isOk with
  | true => simpa [Filling.check, h] using guides_pure (hok h)
  | false => simpa [Filling.check, h] using guides_throw (hrefused h)

end

/-! ## Watches that let a record be filled -/

/-- A watch lets a record be filled: what it keeps is good as long as nothing has failed, bad once
something has failed, and full when the command line has been set as well.  Freeing a text
changes nothing. -/
structure Configures (w : Watch γ) (Good Full Bad : γ → Prop) : Prop where
  permits : ∀ {shape : AnswerShape} (c : EntryCall shape) {g : γ}, c.configures = true → Good g →
    w.permits g c
  succeeds : ∀ {shape : AnswerShape} {c : EntryCall shape} {answer : shape.Answer} {g : γ},
    c.configures = true → Good g → Exchange.fails ⟨c, answer⟩ = false →
    Good (w.after g ⟨c, answer⟩)
  fails : ∀ {shape : AnswerShape} {c : EntryCall shape} {answer : shape.Answer} {g : γ},
    c.configures = true → Good g → Exchange.fails ⟨c, answer⟩ = true →
    Bad (w.after g ⟨c, answer⟩)
  frees : ∀ {text : Pointer} {g : γ}, Good g ∨ Bad g → w.permits g (.freeText text)
  good_freed : ∀ {text : Pointer} {g : γ}, Good g → Good (w.after g ⟨.freeText text, ()⟩)
  bad_freed : ∀ {text : Pointer} {g : γ}, Bad g → Bad (w.after g ⟨.freeText text, ()⟩)
  permits_argv : ∀ {record : Words} {args : List String} {g : γ}, Good g →
    w.permits g (.setArgv record args)
  argv_succeeds : ∀ {record : Words} {args : List String} {answer : Status × Words} {g : γ},
    Good g → answer.1.isOk = true → Full (w.after g ⟨.setArgv record args, answer⟩)
  argv_fails : ∀ {record : Words} {args : List String} {answer : Status × Words} {g : γ},
    Good g → answer.1.isOk = false → Bad (w.after g ⟨.setArgv record args, answer⟩)

/-- How a part of the filling ends. -/
def Ends (Done Stopped : γ → Prop) (result : Except RuntimeError α) (_ : Words) (g : γ) : Prop :=
  match result with
  | .ok _ => Done g
  | .error _ => Stopped g

/-- A part that is done goes on, and one that has stopped stops the rest. -/
theorem Guides.andThen {Done Stopped Q : γ → Prop} {work : Filling α} {f : α → Filling β}
    (h : w.Guides work record g (Ends Done Stopped))
    (hf : ∀ a record' g', Done g' → w.Guides (f a) record' g' (Ends Q Stopped)) :
    w.Guides (work >>= f) record g (Ends Q Stopped) := by
  refine Guides.bind (h.mono ?_)
  rintro (e | a) record' g' h'
  · exact h'
  · exact hf a record' g' h'

namespace Configures
variable {Good Full Bad : γ → Prop} {layout : Layout} {field : ConfigField} {what value : String}

/-- What a call that changes the record leads to, by its status. -/
theorem onRecord (hw : w.Configures Good Full Bad) (hg : Good g)
    (call : EntryCall .statusAndRecord) (hcall : call.configures = true)
    (answer : Status × Words) :
    (answer.1.isOk = true → Good (w.after g ⟨call, answer⟩)) ∧
      (answer.1.isOk = false → Bad (w.after g ⟨call, answer⟩)) :=
  ⟨fun hok => hw.succeeds hcall hg (by simp [Exchange.fails, hok]),
    fun hno => hw.fails hcall hg (by simp [Exchange.fails, hno])⟩

theorem setString (hw : w.Configures Good Full Bad) (hg : Good g) :
    w.Guides (Filling.setString layout field what value) record g
      (Ends Good fun g => Good g ∨ Bad g) := by
  refine guides_passFilling (fun _ => ?_) fun _ => .inl hg
  refine guides_askOnRecord (hw.permits _ rfl hg) fun answer => ?_
  obtain ⟨hgood, hbad⟩ :=
    hw.onRecord hg (.setString record (layout.offset field) value) rfl answer
  exact guides_check hgood fun hno => .inr (hbad hno)

theorem appendText (hw : w.Configures Good Full Bad) (hg : Good g) :
    w.Guides (Filling.appendText layout field what value) record g
      (Ends Good fun g => Good g ∨ Bad g) := by
  refine guides_passFilling (fun _ => ?_) fun _ => .inl hg
  refine guides_askFilling (hw.permits _ rfl hg) fun answer => ?_
  cases answer with
  | none => exact guides_throw (.inr (hw.fails rfl hg rfl))
  | some text =>
    have hdecoded : Good (w.after g ⟨.decodeLocale value, some text⟩) := hw.succeeds rfl hg rfl
    refine guides_askOnRecord (hw.permits _ rfl hdecoded) fun answer => ?_
    obtain ⟨hgood, hbad⟩ :=
      hw.onRecord hdecoded (.appendText record (layout.offset field) text) rfl answer
    -- the text is freed before it is known whether it has been added
    have hstate := (Bool.eq_false_or_eq_true answer.1.isOk).imp hgood hbad
    exact guides_askFilling (hw.frees hstate) fun _ =>
      guides_check (fun hok => hw.good_freed (hgood hok)) fun hno => .inr (hw.bad_freed (hbad hno))

theorem appendAll (hw : w.Configures Good Full Bad) (hg : Good g) (values : List String) :
    w.Guides (Filling.appendAll layout field what values) record g
      (Ends Good fun g => Good g ∨ Bad g) := by
  induction values generalizing g record with
  | nil => exact guides_pure hg
  | cons value rest ih => exact (hw.appendText hg).andThen fun _ _ _ hg' => ih hg'

theorem passAll {Stopped : γ → Prop} (hg : Good g) (hstopped : Stopped g) (texts : List String) :
    w.Guides (texts.mapM Filling.pass) record g (Ends Good Stopped) := by
  rw [← List.mapM'_eq_mapM]
  induction texts with
  | nil => exact guides_pure hg
  | cons text rest ih =>
    refine guides_passFilling (fun _ => ?_) fun _ => hstopped
    exact ih.andThen fun _ _ _ hg' => guides_pure hg'

/-- **Filling passes every watch that lets a record be filled**. -/
theorem fill (hw : w.Configures Good Full Bad) (hg : Good g) (settings : StartSettings) :
    w.Guides (Filling.fill layout settings) record g (Ends Full fun g => Good g ∨ Bad g) := by
  refine guides_modify ((hw.setString hg).andThen fun _ _ _ hg => ?_)
  refine (hw.setString hg).andThen fun _ _ _ hg => ?_
  refine (hw.appendAll hg _).andThen fun _ _ _ hg => ?_
  refine (hw.appendAll hg _).andThen fun _ _ _ hg => ?_
  refine (hw.appendAll hg _).andThen fun _ _ _ hg => ?_
  refine (passAll hg (.inl hg) _).andThen fun args record _ hg => ?_
  exact guides_askOnRecord (hw.permits_argv hg) fun answer =>
    guides_check (hw.argv_succeeds hg) fun hno => .inr (hw.argv_fails hg hno)

/-- **Making, filling, using and clearing a record** passes a watch that lets a record be filled
and that lets a full one be used. -/
theorem guides_bringUp (hw : w.Configures Good Full Bad) {version : UInt32}
    {settings : StartSettings} {r : BoundRuntime}
    {Q : Except RuntimeError Status → BoundRuntime → γ → Prop}
    (hunsupported : Q (.error (.unsupportedVersion version)) r g)
    (hmake : ∀ record, w.permits g (.isolatedConfig record) ∧
      ∀ answer, Good (w.after g ⟨.isolatedConfig record, answer⟩))
    (huse : ∀ record g', Full g' → w.permits g' (.initializeFromConfig record) ∧
      ∀ status, w.permits (w.after g' ⟨.initializeFromConfig record, status⟩)
          (.clearConfig record) ∧
        Q (.ok status) r (w.after (w.after g' ⟨.initializeFromConfig record, status⟩)
          ⟨.clearConfig record, ()⟩))
    (hstop : ∀ record g' e, Good g' ∨ Bad g' → w.permits g' (.clearConfig record) ∧
      Q (.error e) r (w.after g' ⟨.clearConfig record, ()⟩)) :
    w.Guides (BoundRuntime.bringUp version settings) r g Q := by
  refine guides_lift ?_
  unfold initialization withConfiguration
  split
  · exact hunsupported
  · refine ⟨(hmake _).1, fun record => Passes.andThen ?_⟩
    refine Passes.mono (hw.fill ((hmake _).2 record) settings) ?_
    rintro ⟨e | ⟨⟩, filled⟩ g' hends
    · obtain ⟨hpermits, hQ⟩ := hstop filled g' e hends
      exact ⟨hpermits, fun _ => hQ⟩
    · obtain ⟨hpermits, hstatus⟩ := huse filled g' hends
      exact ⟨hpermits, fun status => ⟨(hstatus status).1, fun _ => (hstatus status).2⟩⟩

end Configures

end Watch
end Stowage
