import Stowage.Container.Builder
import Stowage.Launch.Rehearsal
import Stowage.Proofs.Launch.Course

/-!
# The life cycle of a runtime

Whether a launch gets to a runtime depends on what its surroundings answer before: the
program is found and its container opens, nothing is left to extract, the home can be made
visible, and the process does not replace itself (`Ready`).  Then it makes a runtime, starts
it, and feeds it with the modules, the bundles and the scripts of the container in this
order, as long as nothing fails that may not fail.  Any other launch makes no call to a
runtime at all: it fails, or hands over to another process.  A runtime that has been made is
finalized once, as the last thing that the launch asks for.

`launch_lifeCycle` says this of every launch, whatever the surroundings answer, and says
how the launch ends in each case.
-/

namespace Stowage

open Result

variable {τ : Type}

/-! ## Kinds of calls -/

namespace LaunchCall

/-- The calls that come before a runtime is made, if one is. -/
def isPreparing : LaunchCall → Bool
  | currentExecutable .. | exposeHome .. | clearHandshake | extracting .. => true
  | _ => false

/-- The calls by which a launch hands over to another process. -/
def isHandover : LaunchCall → Bool
  | respawn .. | restart .. => true
  | _ => false

/-- The calls that are made once a runtime has started, up to its finalization. -/
def isFeeding : LaunchCall → Bool
  | runModule .. | addCodeBundle .. | runScript .. | unhandledError .. => true
  | _ => false

/-- The calls to a runtime, its making included. -/
def isRuntime : LaunchCall → Bool
  | createRuntime .. | start .. | runModule .. | addCodeBundle .. | runScript .. | finalize => true
  | _ => false

/-- The calls that have made a runtime. -/
def isCreation : LaunchCall → Bool
  | createRuntime _ _ (.ok _) => true
  | _ => false

/-- The script about which the user hears. -/
def notice? : LaunchCall → Option String
  | unhandledError script => some script
  | _ => none

variable {c : LaunchCall}

/-- A call that prepares has nothing to do with a runtime. -/
theorem of_isPreparing (h : c.isPreparing = true) : c.isHandover = false ∧ c.isFeeding = false ∧
    c.isRuntime = false ∧ c.isCreation = false ∧ c.notice? = none := by
  cases c <;> first | exact ⟨rfl, rfl, rfl, rfl, rfl⟩ | cases h

/-- A call that hands over has nothing to do with a runtime. -/
theorem of_isHandover (h : c.isHandover = true) : c.isRuntime = false ∧ c.isCreation = false ∧
    c.notice? = none := by
  cases c <;> first | exact ⟨rfl, rfl, rfl⟩ | cases h

/-- A call that feeds a runtime is made by a launch that has one. -/
theorem of_isFeeding (h : c.isFeeding = true) : c.isHandover = false ∧ c.isPreparing = false ∧
    c.isCreation = false ∧ c ≠ .finalize := by
  cases c <;> simp_all [isFeeding, isHandover, isPreparing, isCreation]

end LaunchCall

namespace Launch

/-- The steps of a launch that are calls to a runtime. -/
def runtimeCalls (steps : List (LaunchStep τ)) : List (LaunchStep τ) :=
  steps.filter (·.call.isRuntime)

/-- The scripts about which the user hears in the course of a launch. -/
def notices (steps : List (LaunchStep τ)) : List String := steps.filterMap (·.call.notice?)

@[simp] theorem notices_append (steps more : List (LaunchStep τ)) :
    notices (steps ++ more) = notices steps ++ notices more := List.filterMap_append

/-! ## How a run of a runtime ends -/

/-- **A runtime has been fed with everything**: all of the table could be read, every
module, bundle and script has been handed over in stored order, and no bundle and no script
has failed. -/
structure Complete (a : Archive) (steps : List (LaunchStep τ)) : Prop where
  readable : ∀ e ∈ a.entries, ∃ r, e = .ok r
  called : ∀ f ∈ Feed.all, f.called steps = f.labels a a.entries
  succeeded : ∀ f ∈ Feed.all, f.tolerates = true ∨ ∀ c ∈ f.answers steps, c.2 = .ok ()

/-- The last script that has been run has failed. -/
def EndsIn (steps : List (LaunchStep τ)) (script : String) : Prop :=
  ∃ label, (Feed.scripts.answers steps).getLast? = some (label, .error (.scriptFailed script))

/-- **How a launch ends whose runtime has started.** -/
structure Ended (a : Archive) (steps : List (LaunchStep τ))
    (r : Except LaunchError LaunchOutcome) : Prop where
  succeeds : r = .ok (.exit 0) ↔ Complete a steps
  reports : ∀ script, r = .ok (.exit unhandledErrorExit) ∧ notices steps = [script] ↔
    EndsIn steps script
  fails : ¬Complete a steps → (∀ script, ¬EndsIn steps script) →
    (∃ e, r = .error (.runtime e)) ∧ notices steps = []
  silent : Complete a steps → notices steps = []
  /-- However far it gets, everything is handed over in stored order. -/
  inOrder : ∀ f ∈ Feed.all, f.called steps <+: f.labels a a.entries

/-- The steps of a launch in which a runtime is fed, and the notice if one follows. -/
def feedingSteps (steps : List (LaunchStep τ)) : List (LaunchStep τ) :=
  steps.filter (·.call.isFeeding)

@[simp] theorem feedingSteps_append (steps more : List (LaunchStep τ)) :
    feedingSteps (steps ++ more) = feedingSteps steps ++ feedingSteps more :=
  List.filter_append _ _

theorem feedingSteps_eq_self {steps : List (LaunchStep τ)}
    (h : ∀ step ∈ steps, step.call.isFeeding = true) : feedingSteps steps = steps :=
  List.filter_eq_self.mpr h

theorem feedingSteps_eq_nil {steps : List (LaunchStep τ)}
    (h : ∀ step ∈ steps, step.call.isFeeding = false) : feedingSteps steps = [] :=
  List.filter_eq_nil_iff.mpr fun step hstep => by simp [h step hstep]

section Passes
variable {a : Archive} {f : Feed} {w w' w₁ w₂ w₃ w₄ : World τ}
  {entries : List (Except Malformation Record)} {steps ps ms bs ss : List (LaunchStep τ)}
  {result rs : Except RuntimeError Unit} {e : RuntimeError}

section

variable [Zlib.Inflater]

/-- The calls of one pass are not those of another. -/
theorem answers_of_pass {g : Feed} (h : Fed a f w entries steps result w')
    (hother : ∀ label bytes answer, g.answered? (f.call label bytes answer) = none) :
    g.answers steps = [] :=
  List.filterMap_eq_nil_iff.mpr (h.forall_call (P := fun c => g.answered? c = none) hother)

/-- The user hears of nothing in the course of a pass. -/
theorem notices_of_pass (h : Fed a f w entries steps result w')
    (hsilent : ∀ label bytes answer, (f.call label bytes answer).notice? = none) :
    notices steps = [] :=
  List.filterMap_eq_nil_iff.mpr (h.forall_call (P := fun c => c.notice? = none) hsilent)

/-- Where everything has been fed, each pass has succeeded. -/
theorem Complete.result_ok (hc : Complete a steps) (hf : f ∈ Feed.all)
    (h : Fed a f w a.entries ps result w') (hsame : f.answers steps = f.answers ps) :
    result = .ok () := by
  refine h.ok_iff.mpr ⟨hc.readable, ?_, ?_⟩
  · rw [Feed.called, ← hsame]
    exact hc.called f hf
  · rw [← hsame]
    exact hc.succeeded f hf

/-- Where the scripts end in a failure, their pass does. -/
theorem EndsIn.result_eq {script : String} (h : EndsIn steps script)
    (hscripts : Fed a .scripts w entries ss rs w')
    (hsame : Feed.scripts.answers steps = Feed.scripts.answers ss) :
    rs = .error (.scriptFailed script) := by
  obtain ⟨label, hlast⟩ := h
  rw [hsame] at hlast
  exact hscripts.eq_error_of_mem rfl (List.mem_of_getLast? hlast)

end

/-- No scripts have been run. -/
theorem not_endsIn (h : Feed.scripts.answers steps = []) (script : String) :
    ¬EndsIn steps script := by
  rintro ⟨label, hlast⟩
  rw [h] at hlast
  cases hlast

/-- A launch that fails while its runtime is fed. -/
theorem Ended.of_error (hc : ¬Complete a steps) (he : ∀ script, ¬EndsIn steps script)
    (hn : notices steps = []) (ho : ∀ f ∈ Feed.all, f.called steps <+: f.labels a a.entries) :
    Ended a steps (.error (.runtime e)) where
  succeeds := ⟨fun h => (by cases h), fun h => absurd h hc⟩
  reports script := ⟨fun h => (by cases h.1), fun h => absurd h (he script)⟩
  fails _ _ := ⟨⟨e, rfl⟩, hn⟩
  silent h := absurd h hc
  inOrder := ho

variable [Zlib.Inflater]

theorem ended_of_modules (hmodules : Fed a .modules w₁ a.entries ms (.error e) w₂) :
    Ended a ms (.error (.runtime e)) := by
  have hb := answers_of_pass hmodules (g := .bundles) fun _ _ _ => rfl
  have hs := answers_of_pass hmodules (g := .scripts) fun _ _ _ => rfl
  refine .of_error (fun hc => ?_) (not_endsIn hs) (notices_of_pass hmodules fun _ _ _ => rfl) ?_
  · cases hc.result_ok (by simp [Feed.all]) hmodules rfl
  · simp only [Feed.all, List.forall_mem_cons, Feed.called, hb, hs]
    exact ⟨hmodules.labels_prefix, List.nil_prefix, List.nil_prefix, List.forall_mem_nil _⟩

theorem ended_of_bundles (hmodules : Fed a .modules w₁ a.entries ms (.ok ()) w₂)
    (hbundles : Fed a .bundles w₂ a.entries bs (.error e) w₃) :
    Ended a (ms ++ bs) (.error (.runtime e)) := by
  have hm : Feed.modules.answers (ms ++ bs) = Feed.modules.answers ms := by
    rw [Feed.answers_append, answers_of_pass hbundles fun _ _ _ => rfl, List.append_nil]
  have hb : Feed.bundles.answers (ms ++ bs) = Feed.bundles.answers bs := by
    rw [Feed.answers_append, answers_of_pass hmodules fun _ _ _ => rfl, List.nil_append]
  have hs : Feed.scripts.answers (ms ++ bs) = [] := by
    rw [Feed.answers_append, answers_of_pass hmodules fun _ _ _ => rfl,
      answers_of_pass hbundles fun _ _ _ => rfl, List.append_nil]
  refine .of_error (fun hc => ?_) (not_endsIn hs) ?_ ?_
  · cases hc.result_ok (by simp [Feed.all]) hbundles hb
  · rw [notices_append, notices_of_pass hmodules fun _ _ _ => rfl,
      notices_of_pass hbundles fun _ _ _ => rfl, List.append_nil]
  · simp only [Feed.all, List.forall_mem_cons, Feed.called, hm, hb, hs]
    exact ⟨hmodules.labels_prefix, hbundles.labels_prefix, List.nil_prefix, List.forall_mem_nil _⟩

section Scripts
variable (hmodules : Fed a .modules w₁ a.entries ms (.ok ()) w₂)
  (hbundles : Fed a .bundles w₂ a.entries bs (.ok ()) w₃)
  (hscripts : Fed a .scripts w₃ a.entries ss rs w₄)
include hmodules hbundles hscripts

/-- What has been fed in three passes, and a notice that may follow. -/
theorem answers_of_passes {last : List (LaunchStep τ)}
    (hlast : ∀ step ∈ last, ∃ script, step.call = .unhandledError script) :
    Feed.modules.answers (ms ++ bs ++ ss ++ last) = Feed.modules.answers ms ∧
      Feed.bundles.answers (ms ++ bs ++ ss ++ last) = Feed.bundles.answers bs ∧
      Feed.scripts.answers (ms ++ bs ++ ss ++ last) = Feed.scripts.answers ss ∧
      notices (ms ++ bs ++ ss ++ last) = notices last := by
  have hnone (f : Feed) (h : ∀ script, f.answered? (.unhandledError script) = none) :
      f.answers last = [] := by
    refine List.filterMap_eq_nil_iff.mpr fun step hstep => ?_
    obtain ⟨script, hcall⟩ := hlast step hstep
    rw [hcall, h]
  refine ⟨?_, ?_, ?_, ?_⟩
  · simp [answers_of_pass hbundles (g := .modules) fun _ _ _ => rfl,
      answers_of_pass hscripts (g := .modules) fun _ _ _ => rfl, hnone .modules fun _ => rfl]
  · simp [answers_of_pass hmodules (g := .bundles) fun _ _ _ => rfl,
      answers_of_pass hscripts (g := .bundles) fun _ _ _ => rfl, hnone .bundles fun _ => rfl]
  · simp [answers_of_pass hmodules (g := .scripts) fun _ _ _ => rfl,
      answers_of_pass hbundles (g := .scripts) fun _ _ _ => rfl, hnone .scripts fun _ => rfl]
  · simp [notices_of_pass hmodules fun _ _ _ => rfl, notices_of_pass hbundles fun _ _ _ => rfl,
      notices_of_pass hscripts fun _ _ _ => rfl]

/-- In three passes everything is handed over in stored order. -/
theorem called_of_passes {last : List (LaunchStep τ)}
    (hlast : ∀ step ∈ last, ∃ script, step.call = .unhandledError script) :
    ∀ f ∈ Feed.all, f.called (ms ++ bs ++ ss ++ last) <+: f.labels a a.entries := by
  obtain ⟨hm, hb, hs, -⟩ := answers_of_passes hmodules hbundles hscripts hlast
  simp only [Feed.all, List.forall_mem_cons, Feed.called, hm, hb, hs]
  exact ⟨hmodules.labels_prefix, hbundles.labels_prefix, hscripts.labels_prefix,
    List.forall_mem_nil _⟩

/-- Everything has been fed if and only if the scripts have succeeded as well. -/
theorem complete_iff {last : List (LaunchStep τ)}
    (hlast : ∀ step ∈ last, ∃ script, step.call = .unhandledError script) :
    Complete a (ms ++ bs ++ ss ++ last) ↔ rs = .ok () := by
  obtain ⟨hm, hb, hs, -⟩ := answers_of_passes hmodules hbundles hscripts hlast
  constructor
  · exact fun hc => hc.result_ok (by simp [Feed.all]) hscripts hs
  · intro hok
    obtain ⟨hreadable, hm₁, hm₂⟩ := hmodules.ok_iff.mp rfl
    obtain ⟨-, hb₁, hb₂⟩ := hbundles.ok_iff.mp rfl
    obtain ⟨-, hs₁, hs₂⟩ := hscripts.ok_iff.mp hok
    refine ⟨hreadable, ?_, ?_⟩
    · simp only [Feed.all, List.forall_mem_cons, Feed.called, hm, hb, hs]
      exact ⟨hm₁, hb₁, hs₁, List.forall_mem_nil _⟩
    · simp only [Feed.all, List.forall_mem_cons, hm, hb, hs]
      exact ⟨hm₂, hb₂, hs₂, List.forall_mem_nil _⟩

/-- What three passes come to when no notice follows. -/
theorem passes_without_notice :
    Feed.scripts.answers (ms ++ bs ++ ss) = Feed.scripts.answers ss ∧
      notices (ms ++ bs ++ ss) = [] ∧ (Complete a (ms ++ bs ++ ss) ↔ rs = .ok ()) ∧
      ∀ f ∈ Feed.all, f.called (ms ++ bs ++ ss) <+: f.labels a a.entries := by
  have hnone : ∀ step ∈ ([] : List (LaunchStep τ)), ∃ script,
      step.call = .unhandledError script := by simp
  obtain ⟨-, -, hs, hn⟩ := answers_of_passes hmodules hbundles hscripts hnone
  have hcomplete := complete_iff hmodules hbundles hscripts hnone
  have hcalled := called_of_passes hmodules hbundles hscripts hnone
  rw [List.append_nil] at hs hn hcomplete hcalled
  exact ⟨hs, hn, hcomplete, hcalled⟩

theorem ended_of_scripts (herror : rs = .error e) (hother : ∀ script, e ≠ .scriptFailed script) :
    Ended a (ms ++ bs ++ ss) (.error (.runtime e)) := by
  obtain ⟨hs, hn, hcomplete, hcalled⟩ := passes_without_notice hmodules hbundles hscripts
  refine .of_error (fun hc => ?_) (fun script he => ?_) hn hcalled
  · rw [hcomplete, herror] at hc
    cases hc
  · have hresult := he.result_eq hscripts hs
    rw [herror] at hresult
    cases hresult
    exact hother script rfl

theorem ended_of_failure {script : String} {last : LaunchStep τ}
    (hfailed : rs = .error (.scriptFailed script)) (hlast : last.call = .unhandledError script) :
    Ended a (ms ++ bs ++ ss ++ [last]) (.ok (.exit unhandledErrorExit)) := by
  have hnotice : ∀ step ∈ [last], ∃ script, step.call = .unhandledError script := by
    simp [hlast]
  obtain ⟨-, -, hs, hn⟩ := answers_of_passes hmodules hbundles hscripts hnotice
  have hcomplete := complete_iff hmodules hbundles hscripts hnotice
  have hscript : notices [last] = [script] := by simp [notices, hlast, LaunchCall.notice?]
  have hends : EndsIn (ms ++ bs ++ ss ++ [last]) script := by
    rw [hfailed] at hscripts
    obtain ⟨label, hgot⟩ := hscripts.getLast?_answers (by simp)
    exact ⟨label, by rw [hs, hgot]⟩
  have hnot : ¬Complete a (ms ++ bs ++ ss ++ [last]) := by
    rw [hcomplete, hfailed]
    nofun
  refine ⟨⟨fun h => (by cases h), fun h => absurd h hnot⟩, fun other => ?_, fun _ he => ?_,
    fun h => absurd h hnot, called_of_passes hmodules hbundles hscripts hnotice⟩
  · rw [hn, hscript]
    constructor
    · rintro ⟨-, heq⟩
      obtain rfl := List.singleton_inj.mp heq
      exact hends
    · intro he
      have hresult := he.result_eq hscripts hs
      rw [hfailed] at hresult
      cases hresult
      exact ⟨rfl, rfl⟩
  · exact absurd hends (he script)

theorem ended_of_completion (hok : rs = .ok ()) : Ended a (ms ++ bs ++ ss) (.ok (.exit 0)) := by
  obtain ⟨hs, hn, hcomplete, hcalled⟩ := passes_without_notice hmodules hbundles hscripts
  have hall := hcomplete.mpr hok
  refine ⟨⟨fun _ => hall, fun _ => rfl⟩, fun script => ⟨fun h => ?_, fun he => ?_⟩,
    fun h => absurd hall h, fun _ => hn, hcalled⟩
  · cases h.1
  · have hresult := he.result_eq hscripts hs
    rw [hok] at hresult
    cases hresult

end Scripts
end Passes

/-- **A run of a runtime**: one is made, started, and fed if it runs. -/
theorem Running.shape [Zlib.Inflater] {env : Surroundings τ} {a : Archive} {s s' : LaunchState}
    {w w' : World τ} {r : Except LaunchError LaunchOutcome} {run : List (LaunchStep τ)}
    (h : Running env a s w r s' run w') :
    (∃ e w₁, s' = s ∧ run = [⟨.createRuntime a s.session.home (.error e), w, w₁⟩]) ∨
      (s' = { s with hasRuntime := true } ∧ ∃ w₁ w₂ answer fed, Begins env a s w w₁ w₂ answer ∧
        run = begun a s w w₁ w₂ answer ++ fed ∧ (∀ step ∈ fed, step.call.isFeeding = true) ∧
        match answer with
        | .error e => fed = [] ∧ r = .error (.runtime e)
        | .ok (.exit code) => fed = [] ∧ r = .ok (.exit code)
        | .ok .running => Ended a fed r) := by
  have hpass {f : Feed} {w w' : World τ} {steps : List (LaunchStep τ)}
      {result : Except RuntimeError Unit} (h : Fed a f w a.entries steps result w')
      (hcalls : ∀ label bytes answer, (f.call label bytes answer).isFeeding = true) :
      ∀ step ∈ steps, step.call.isFeeding = true :=
    h.forall_call (P := fun c => c.isFeeding = true) hcalls
  cases h with
  | uncreated => exact .inl ⟨_, _, rfl, rfl⟩
  | @unstarted e w₁ w₂ hbegins =>
    exact .inr ⟨rfl, w₁, _, _, [], hbegins, (List.append_nil _).symm, by simp, rfl, rfl⟩
  | @exited code w₁ w₂ hbegins =>
    exact .inr ⟨rfl, w₁, _, _, [], hbegins, (List.append_nil _).symm, by simp, rfl, rfl⟩
  | @modulesStopped e w₁ w₂ w₃ ms hbegins hmodules =>
    exact .inr ⟨rfl, w₁, w₂, _, ms, hbegins, rfl, hpass hmodules fun _ _ _ => rfl,
      ended_of_modules hmodules⟩
  | @bundlesStopped e w₁ w₂ w₃ w₄ ms bs hbegins hmodules hbundles =>
    refine .inr ⟨rfl, w₁, w₂, _, ms ++ bs, hbegins, rfl, ?_, ended_of_bundles hmodules hbundles⟩
    simp only [List.forall_mem_append]
    exact ⟨hpass hmodules fun _ _ _ => rfl, hpass hbundles fun _ _ _ => rfl⟩
  | @scriptsStopped e w₁ w₂ w₃ w₄ w₅ ms bs ss hother hbegins hmodules hbundles hscripts =>
    refine .inr ⟨rfl, w₁, w₂, _, ms ++ bs ++ ss, hbegins, rfl, ?_,
      ended_of_scripts hmodules hbundles hscripts rfl hother⟩
    simp only [List.forall_mem_append]
    exact ⟨⟨hpass hmodules fun _ _ _ => rfl, hpass hbundles fun _ _ _ => rfl⟩,
      hpass hscripts fun _ _ _ => rfl⟩
  | @scriptFailed script w₁ w₂ w₃ w₄ w₅ w₆ ms bs ss hbegins hmodules hbundles hscripts =>
    refine .inr ⟨rfl, w₁, w₂, _, _, hbegins, rfl, ?_,
      ended_of_failure hmodules hbundles hscripts rfl rfl⟩
    simp only [List.forall_mem_append, List.forall_mem_singleton]
    exact ⟨⟨⟨hpass hmodules fun _ _ _ => rfl, hpass hbundles fun _ _ _ => rfl⟩,
      hpass hscripts fun _ _ _ => rfl⟩, rfl⟩
  | @completed w₁ w₂ w₃ w₄ w₅ ms bs ss hbegins hmodules hbundles hscripts =>
    refine .inr ⟨rfl, w₁, w₂, _, ms ++ bs ++ ss, hbegins, rfl, ?_,
      ended_of_completion hmodules hbundles hscripts rfl⟩
    simp only [List.forall_mem_append]
    exact ⟨⟨hpass hmodules fun _ _ _ => rfl, hpass hbundles fun _ _ _ => rfl⟩,
      hpass hscripts fun _ _ _ => rfl⟩

/-- A run of a runtime neither hands over nor extracts. -/
theorem Running.stays [Zlib.Inflater] {env : Surroundings τ} {a : Archive} {s s' : LaunchState}
    {w w' : World τ} {r : Except LaunchError LaunchOutcome} {run : List (LaunchStep τ)}
    (h : Running env a s w r s' run w') : ∀ step ∈ run, step.call.isHandover = false ∧
      ∀ name, step.call ≠ .extracting name := by
  rcases h.shape with ⟨e, w₁, -, rfl⟩ | ⟨-, w₁, w₂, answer, fed, -, rfl, hfed, -⟩
  · simp [LaunchCall.isHandover]
  · refine List.forall_mem_append.mpr ⟨by simp [begun, LaunchCall.isHandover], ?_⟩
    intro step hstep
    obtain ⟨hhands, hprepares, -⟩ := LaunchCall.of_isFeeding (hfed step hstep)
    refine ⟨hhands, fun name hcall => ?_⟩
    rw [hcall] at hprepares
    cases hprepares

/-! ## Whether a launch gets to its runtime -/

/-- **Where a program runs from** whose container has been opened: from the directory that an
earlier process has extracted for it, or from its home, if nothing has to be extracted. -/
inductive Placed (env : Surroundings τ) (setup : LaunchSetup) (a : Archive) (s : LaunchState)
    (w : World τ) : LaunchState → World τ → Prop
  | told {dir : Path} (hextracted : setup.handshake.extractDir = some dir) :
    Placed env setup a s w { s with session := { s.session with isChild := true, home := dir } }
      (env.clearHandshake.apply w).2
  | atHome (hfirst : setup.handshake.extractDir = none) (hneeds : a.needsExtraction = false) :
    Placed env setup a s w
      { s with session := { s.session with home := inPlaceHome s.session s.options } } w

/-- **A process stays** once its home is visible: it has replaced itself before, or has no
reason to. -/
inductive Stays (env : Surroundings τ) (setup : LaunchSetup) (s : LaunchState) (w : World τ) :
    World τ → Prop
  | again {changed : Bool} {w₁ : World τ}
    (hexpose : (env.exposeHome s.session.home).apply w = (.ok changed, w₁))
    (hagain : setup.handshake.restarted = true) :
    Stays env setup s w (env.clearHandshake.apply w₁).2
  | atOnce {changed : Bool} {w₁ : World τ}
    (hexpose : (env.exposeHome s.session.home).apply w = (.ok changed, w₁))
    (hfirst : setup.handshake.restarted = false)
    (hstays : (changed && s.options.launcher.restartForLibraryPath && !s.session.isChild) = false) :
    Stays env setup s w w₁

/-- **The surroundings let a launch get to its runtime**: the program is found and its container
`a` opens, there is a place to run from, its home can be made visible, and the process stays.  What
is known by then is `s₀`, and the world has become `w₀`. -/
def Ready (env : Surroundings τ) (setup : LaunchSetup) (s : LaunchState) (w : World τ)
    (a : Archive) (s₀ : LaunchState) (w₀ : World τ) : Prop :=
  ∃ s₁ opening w₁ w₂, Opening env s w (.ok a) s₁ opening w₁ ∧
    Placed env setup a s₁ w₁ s₀ w₂ ∧ Stays env setup s₀ w₂ w₀

section Courses
variable {env : Surroundings τ} {setup : LaunchSetup} {a : Archive} {s s' s₁ s₂ : LaunchState}
  {w w' w₁ w₂ : World τ} {r : Except LaunchError LaunchOutcome}
  {steps before : List (LaunchStep τ)}

/-! ### There is one way to get there -/

theorem Opening.unique {result result' : Except LaunchError Archive}
    {opening opening' : List (LaunchStep τ)} (h : Opening env s w result s₁ opening w₁)
    (h' : Opening env s w result' s₂ opening' w₂) : result = result' ∧ s₁ = s₂ ∧ w₁ = w₂ := by
  obtain ⟨hstate, rfl⟩ := Prod.mk.inj (h.apply.symm.trans h'.apply)
  obtain ⟨rfl, rfl⟩ := Prod.mk.inj hstate
  exact ⟨rfl, rfl, rfl⟩

theorem Placed.unique (h : Placed env setup a s w s₁ w₁) (h' : Placed env setup a s w s₂ w₂) :
    s₁ = s₂ ∧ w₁ = w₂ := by
  cases h with
  | told hextracted =>
    cases h' with
    | told hextracted' =>
      obtain rfl := Option.some.inj (hextracted.symm.trans hextracted')
      exact ⟨rfl, rfl⟩
    | atHome hfirst => cases hextracted.symm.trans hfirst
  | atHome hfirst =>
    cases h' with
    | told hextracted => cases hfirst.symm.trans hextracted
    | atHome => exact ⟨rfl, rfl⟩

theorem Stays.unique (h : Stays env setup s w w₁) (h' : Stays env setup s w w₂) : w₁ = w₂ := by
  cases h with
  | again hexpose hagain =>
    cases h' with
    | again hexpose' => rw [(Prod.mk.inj (hexpose.symm.trans hexpose')).2]
    | atOnce _ hfirst => cases hagain.symm.trans hfirst
  | atOnce hexpose hfirst =>
    cases h' with
    | again _ hagain => cases hfirst.symm.trans hagain
    | atOnce hexpose' => exact (Prod.mk.inj (hexpose.symm.trans hexpose')).2

/-- **A launch gets to one runtime at most**, in one way. -/
theorem Ready.unique {a' : Archive} (h : Ready env setup s w a s₁ w₁)
    (h' : Ready env setup s w a' s₂ w₂) : a = a' ∧ s₁ = s₂ ∧ w₁ = w₂ := by
  obtain ⟨t, opening, v, u, hopen, hplaced, hstays⟩ := h
  obtain ⟨t', opening', v', u', hopen', hplaced', hstays'⟩ := h'
  obtain ⟨hsame, rfl, rfl⟩ := hopen.unique hopen'
  obtain rfl := Except.ok.inj hsame
  obtain ⟨rfl, rfl⟩ := hplaced.unique hplaced'
  exact ⟨rfl, rfl, hstays.unique hstays'⟩

/-! ### Launches that get there and launches that do not -/

/-- The launch does not get to its runtime: it fails or hands over, and makes no call that
has to do with a runtime. -/
structure StopsShort (r : Except LaunchError LaunchOutcome) (steps : List (LaunchStep τ))
    (s' : LaunchState) : Prop where
  calls : ∀ step ∈ steps, step.call.isPreparing = true ∨ step.call.isHandover = true
  unmade : s'.hasRuntime = false
  reason : (∃ e, r = .error e) ∨ ∃ step ∈ steps, step.call.isHandover = true

variable [Zlib.Inflater]

/-- The launch gets to its runtime: after some preparation it runs one. -/
structure GoesOn (env : Surroundings τ) (a : Archive) (s : LaunchState)
    (r : Except LaunchError LaunchOutcome) (s' : LaunchState) (steps : List (LaunchStep τ))
    (w' : World τ) (prelude run : List (LaunchStep τ)) (w₀ : World τ) : Prop where
  steps_eq : steps = prelude ++ run
  calls : ∀ step ∈ prelude, step.call.isPreparing = true ∧ ∀ name, step.call ≠ .extracting name
  visible : ∃ step ∈ prelude, ∃ changed, step.call = .exposeHome s.session.home (.ok changed)
  unmade : s.hasRuntime = false
  runs : Running env a s w₀ r s' run w'

omit [Zlib.Inflater] in
theorem Opening.step {result : Except LaunchError Archive} (h :
    Opening env s w result s' steps w') :
    s'.hasRuntime = s.hasRuntime ∧ ∃ step answer, steps = [step] ∧
      step.call = .currentExecutable s.session.argv.head? answer := by
  cases h <;> exact ⟨rfl, _, _, rfl, rfl⟩

/-- A program that runs in place stays and gets to its runtime, or does neither. -/
theorem InPlace.cases (h : InPlace env setup a s w r s' steps w') (hs : s.hasRuntime = false) :
    (StopsShort r steps s' ∧ ∀ w₀, ¬Stays env setup s w w₀) ∨
      ∃ prelude run w₀, Stays env setup s w w₀ ∧ GoesOn env a s r s' steps w' prelude run w₀ := by
  cases h with
  | hidden hexpose =>
    refine .inl ⟨⟨by simp [LaunchCall.isPreparing], hs, .inl ⟨_, rfl⟩⟩, fun w₀ hstays => ?_⟩
    cases hstays with
    | again hexpose' | atOnce hexpose' => cases hexpose.symm.trans hexpose'
  | restarted hexpose hfirst hasked hown =>
    refine .inl ⟨⟨by simp [LaunchCall.isPreparing, LaunchCall.isHandover], hs,
      .inr (by simp [LaunchCall.isHandover])⟩, fun w₀ hstays => ?_⟩
    cases hstays with
    | again _ hagain => cases hfirst.symm.trans hagain
    | atOnce hexpose' _ hstays =>
      cases hexpose.symm.trans hexpose'
      simp [hasked, hown] at hstays
  | @ran changed w₁ _ _ _ run hexpose hfirst hstays hruns =>
    exact .inr ⟨[_], run, w₁, .atOnce hexpose hfirst hstays, rfl,
      by simp [LaunchCall.isPreparing], by simp, hs, hruns⟩
  | @ranAgain changed w₁ w₂ _ _ _ run hexpose hagain hclear hruns =>
    subst hclear
    exact .inr ⟨[_, _], run, _, .again hexpose hagain, rfl,
      by simp [LaunchCall.isPreparing], by simp, hs, hruns⟩

theorem Extracting.stopsShort (h : Extracting env setup a s w r s' steps w')
    (hs : s.hasRuntime = false) : StopsShort r steps s' := by
  have hcalls {heard : List (LaunchStep τ)} (hheard : Heard heard) :
      ∀ step ∈ heard, step.call.isPreparing = true := by
    intro step hstep
    obtain ⟨name, hcall⟩ := hheard step hstep
    rw [hcall]
    rfl
  cases h with
  | failed hextract =>
    refine ⟨fun step hstep => .inl (hcalls hextract.heard step hstep), ?_, .inl ⟨_, rfl⟩⟩
    cases hextract <;> exact hs
  | hidden hextract =>
    refine ⟨?_, hs, .inl ⟨_, rfl⟩⟩
    simp only [List.forall_mem_append, List.forall_mem_singleton]
    exact ⟨fun step hstep => .inl (hcalls hextract.heard step hstep), .inl rfl⟩
  | respawned hextract =>
    refine ⟨?_, hs, .inr ⟨_, List.mem_append_right _ (.tail _ (.head _)), rfl⟩⟩
    simp only [List.forall_mem_append, List.forall_mem_cons]
    exact ⟨fun step hstep => .inl (hcalls hextract.heard step hstep), .inl rfl, .inr rfl, by simp⟩

omit [Zlib.Inflater] in
/-- Preparations before do not change that. -/
theorem StopsShort.append (h : StopsShort r steps s')
    (hbefore : ∀ step ∈ before, step.call.isPreparing = true) :
    StopsShort r (before ++ steps) s' := by
  refine ⟨fun step hstep => ?_, h.unmade, h.reason.imp_right ?_⟩
  · rcases List.mem_append.mp hstep with hin | hin
    · exact .inl (hbefore step hin)
    · exact h.calls step hin
  · rintro ⟨step, hstep, hhands⟩
    exact ⟨step, List.mem_append_right _ hstep, hhands⟩

omit [Zlib.Inflater] in
/-- The opening of a container is a preparation. -/
theorem Opening.prepares {result : Except LaunchError Archive} {opening : List (LaunchStep τ)}
    (h : Opening env s w result s₁ opening w₁) (hs : s.hasRuntime = false) :
    s₁.hasRuntime = false ∧ ∀ step ∈ opening, step.call.isPreparing = true ∧
      ∀ name, step.call ≠ .extracting name := by
  obtain ⟨hs₁, step, answer, rfl, hcall⟩ := h.step
  refine ⟨hs₁.trans hs, ?_⟩
  simp [hcall, LaunchCall.isPreparing]

/-- **A launch that has a place to run from** is ready if it stays there, and not otherwise. -/
theorem Placed.cases {s₀ : LaunchState} {opening rest : List (LaunchStep τ)}
    (hplaced : Placed env setup a s₁ w₁ s₀ w₂) (hopen : Opening env s w (.ok a) s₁ opening w₁)
    (hs : s.hasRuntime = false) (hs₀ : s₀.hasRuntime = false)
    (hbefore : ∀ step ∈ before, step.call.isPreparing = true ∧
      ∀ name, step.call ≠ .extracting name)
    (hplace : InPlace env setup a s₀ w₂ r s' rest w') :
    (StopsShort r (opening ++ before ++ rest) s' ∧ ∀ a s₀ w₀, ¬Ready env setup s w a s₀ w₀) ∨
      ∃ a s₀ prelude run w₀, Ready env setup s w a s₀ w₀ ∧
        GoesOn env a s₀ r s' (opening ++ before ++ rest) w' prelude run w₀ := by
  have hall : ∀ step ∈ opening ++ before, step.call.isPreparing = true ∧
      ∀ name, step.call ≠ .extracting name :=
    List.forall_mem_append.mpr ⟨(hopen.prepares hs).2, hbefore⟩
  rcases hplace.cases hs₀ with ⟨hstops, hgone⟩ |
    ⟨prelude, run, w₀, hstays, rfl, hcalls, hvisible, hunmade, hruns⟩
  · refine .inl ⟨hstops.append fun step hstep => (hall step hstep).1, ?_⟩
    rintro a' s₀' w₀ ⟨s₁', opening', w₁', w₂', hopen', hplaced', hstays⟩
    obtain ⟨hsame, rfl, rfl⟩ := hopen.unique hopen'
    obtain rfl := Except.ok.inj hsame
    obtain ⟨rfl, rfl⟩ := hplaced.unique hplaced'
    exact hgone w₀ hstays
  · refine .inr ⟨a, s₀, opening ++ before ++ prelude, run, w₀,
      ⟨s₁, opening, w₁, w₂, hopen, hplaced, hstays⟩, by simp,
      List.forall_mem_append.mpr ⟨hall, hcalls⟩, ?_, hunmade, hruns⟩
    obtain ⟨step, hstep, hcall⟩ := hvisible
    exact ⟨step, List.mem_append_right _ hstep, hcall⟩

/-- **A launch is ready for its runtime and gets to it, or is not and does not.** -/
theorem Course.cases (h : Course env setup s w r s' steps w') (hs : s.hasRuntime = false) :
    (StopsShort r steps s' ∧ ∀ a s₀ w₀, ¬Ready env setup s w a s₀ w₀) ∨
      ∃ a s₀ prelude run w₀, Ready env setup s w a s₀ w₀ ∧
        GoesOn env a s₀ r s' steps w' prelude run w₀ := by
  cases h with
  | unopened hopen =>
    obtain ⟨hs₁, hcalls⟩ := hopen.prepares hs
    refine .inl ⟨⟨fun step hstep => .inl (hcalls step hstep).1, hs₁, .inl ⟨_, rfl⟩⟩, ?_⟩
    rintro a s₀ w₀ ⟨s₁, opening, w₁, w₂, hopen', -⟩
    cases (hopen.unique hopen').1
  | extracts hopen hfirst hneeds hextracts =>
    obtain ⟨hs₁, hcalls⟩ := hopen.prepares hs
    refine .inl ⟨(hextracts.stopsShort hs₁).append fun step hstep => (hcalls step hstep).1, ?_⟩
    rintro a' s₀ w₀ ⟨s₁, opening, w₁, w₂, hopen', hplaced, -⟩
    obtain rfl := Except.ok.inj (hopen.unique hopen').1
    cases hplaced with
    | told hextracted => cases hfirst.symm.trans hextracted
    | atHome _ hneeds' => cases hneeds.symm.trans hneeds'
  | @runsExtracted _ _ _ _ opening rest w₁ w₂ _ _ hopen hextracted hclear hruns =>
    have hclearing : ∀ step ∈ [(⟨.clearHandshake, w₁, w₂⟩ : LaunchStep τ)],
        step.call.isPreparing = true ∧ ∀ name, step.call ≠ .extracting name := by
      simp [LaunchCall.isPreparing]
    subst hclear
    rw [List.append_cons]
    exact Placed.cases (.told hextracted) hopen hs (hopen.prepares hs).1 hclearing hruns
  | @runs _ _ _ opening rest _ _ _ hopen hfirst hneeds hruns =>
    rw [← List.append_nil opening]
    exact Placed.cases (.atHome hfirst hneeds) hopen hs (hopen.prepares hs).1 (by simp) hruns

end Courses

/-! ## The life cycle -/

/-- **A launch runs a runtime** for a container, in the given state and world: with its home
visible it makes, starts and feeds one, and finalizes it. -/
def RunsRuntime [Zlib.Inflater] (env : Surroundings τ) (a : Archive) (s₀ : LaunchState)
    (w₀ : World τ) (r : Except LaunchError LaunchOutcome) (steps : List (LaunchStep τ)) : Prop :=
  ∃ s' w' prelude run, Running env a s₀ w₀ r s' run w' ∧
    steps = prelude ++ run ++ finishing env s' w' ∧
    (∀ step ∈ prelude, step.call.isPreparing = true) ∧
    ∃ step ∈ prelude, ∃ changed, step.call = .exposeHome s₀.session.home (.ok changed)

/-- **The life cycle of the runtime of a launch**, told by its result and its steps. -/
structure LifeCycle [Zlib.Inflater] (env : Surroundings τ) (setup : LaunchSetup)
    (argv : List String) (w : World τ) (r : Except LaunchError LaunchOutcome)
    (steps : List (LaunchStep τ)) : Prop where
  /-- A launch whose surroundings let it get to its runtime runs one. -/
  runs : ∀ a s₀ w₀, Ready env setup (initial argv) w a s₀ w₀ → RunsRuntime env a s₀ w₀ r steps
  /-- Any other makes no call to a runtime: it fails, or hands over. -/
  idle : (∀ a s₀ w₀, ¬Ready env setup (initial argv) w a s₀ w₀) →
    runtimeCalls steps = [] ∧ notices steps = [] ∧
      ((∃ e, r = .error e) ∨ ∃ step ∈ steps, step.call.isHandover = true)
  /-- In particular, one that extracts or hands over makes none. -/
  handsOver : ∀ step ∈ steps,
    (step.call.isHandover = true ∨ ∃ name, step.call = .extracting name) → runtimeCalls steps = []
  /-- A runtime that has been made is finalized once, and that is the last call. -/
  finalized : ∀ step ∈ steps, step.call.isCreation = true →
    ∃ rest last, steps = rest ++ [last] ∧ last.call = .finalize ∧
      ∀ step ∈ rest, step.call ≠ .finalize
  /-- One that has not been made is not finalized. -/
  unmade : (∀ step ∈ steps, step.call.isCreation = false) → ∀ step ∈ steps, step.call ≠ .finalize
  /-- A runtime that asks to exit decides the outcome. -/
  exits : ∀ step ∈ steps, ∀ settings code, step.call = .start settings (.ok (.exit code)) →
    r = .ok (.exit code) ∧ notices steps = []
  /-- A runtime that runs is fed, and what happens then decides the outcome. -/
  ends : ∀ step ∈ steps, ∀ settings, step.call = .start settings (.ok .running) →
    ∀ creation ∈ steps, ∀ a home answer, creation.call = .createRuntime a home answer →
      Ended a (feedingSteps steps) r

section
variable {env : Surroundings τ} {setup : LaunchSetup} {argv : List String} {w w₁ : World τ}
  {s : LaunchState} {r : Except LaunchError LaunchOutcome} {steps : List (LaunchStep τ)}

/-- A launch that stops short has no runtime whose life could be told. -/
theorem StopsShort.lifeCycle [Zlib.Inflater] (h : StopsShort r steps s)
    (hunready : ∀ a s₀ w₀, ¬Ready env setup (initial argv) w a s₀ w₀) :
    LifeCycle env setup argv w r (steps ++ finishing env s w₁) := by
  have hcalls : ∀ step ∈ steps, step.call.isRuntime = false ∧ step.call.isCreation = false ∧
      step.call.notice? = none := by
    intro step hstep
    rcases h.calls step hstep with hprepares | hhands
    · exact (LaunchCall.of_isPreparing hprepares).2.2
    · exact LaunchCall.of_isHandover hhands
  have hruntime {step : LaunchStep τ} (hstep : step ∈ steps) {c : LaunchCall}
      (hcall : step.call = c) (hc : c.isRuntime = true) : False := by
    rw [← hcall, (hcalls step hstep).1] at hc
    cases hc
  have hnone : runtimeCalls steps = [] :=
    List.filter_eq_nil_iff.mpr fun step hstep => by simp [(hcalls step hstep).1]
  have hsilent : notices steps = [] :=
    List.filterMap_eq_nil_iff.mpr fun step hstep => (hcalls step hstep).2.2
  rw [finishing, h.unmade, if_neg Bool.false_ne_true, List.append_nil]
  refine ⟨fun a s₀ w₀ hready => absurd hready (hunready a s₀ w₀),
    fun _ => ⟨hnone, hsilent, h.reason⟩, fun _ _ _ => hnone, fun step hstep hc => ?_,
    fun _ step hstep hc => (hruntime hstep hc rfl).elim,
    fun step hstep _ _ hc => (hruntime hstep hc rfl).elim,
    fun step hstep _ hc => (hruntime hstep hc rfl).elim⟩
  rw [(hcalls step hstep).2.1] at hc
  cases hc

section Made
variable {a : Archive} {s₀ : LaunchState} {w₀ w₁ w₂ : World τ} {prelude fed : List (LaunchStep τ)}
  {answer : Except RuntimeError StartOutcome} {last step : LaunchStep τ}
  (hprelude : ∀ step ∈ prelude, step.call.isPreparing = true)
  (hfed : ∀ step ∈ fed, step.call.isFeeding = true)
include hprelude hfed

/-- The calls up to the finalization of a runtime that has been made. -/
theorem call_of_mem (hstep : step ∈ prelude ++ (begun a s₀ w₀ w₁ w₂ answer ++ fed)) :
    step.call.isPreparing = true ∨ step.call = .createRuntime a s₀.session.home (.ok ()) ∨
      step.call = .start (settingsOf s₀) answer ∨ step.call.isFeeding = true := by
  rcases List.mem_append.mp hstep with hin | hin
  · exact .inl (hprelude step hin)
  · rcases List.mem_append.mp hin with hin | hin
    · obtain rfl | rfl : step = ⟨_, _, _⟩ ∨ step = ⟨_, _, _⟩ := by simpa [begun] using hin
      · exact .inr (.inl rfl)
      · exact .inr (.inr (.inl rfl))
    · exact .inr (.inr (.inr (hfed step hin)))

/-- The start of a runtime tells what its answer was. -/
theorem answer_of_start {settings : StartSettings} {answer' : Except RuntimeError StartOutcome}
    (hlast : last.call = .finalize)
    (hstep : step ∈ prelude ++ (begun a s₀ w₀ w₁ w₂ answer ++ fed) ++ [last])
    (hcall : step.call = .start settings answer') : answer' = answer := by
  rcases List.mem_append.mp hstep with hin | hin
  · rcases call_of_mem hprelude hfed hin with h | h | h | h <;> rw [hcall] at h <;> cases h
    rfl
  · rw [List.mem_singleton.mp hin, hlast] at hcall
    cases hcall

/-- The making of a runtime tells for which container. -/
theorem archive_of_creation {a' : Archive} {home : Path} {made : Except LaunchError Unit}
    (hlast : last.call = .finalize)
    (hstep : step ∈ prelude ++ (begun a s₀ w₀ w₁ w₂ answer ++ fed) ++ [last])
    (hcall : step.call = .createRuntime a' home made) : a' = a := by
  rcases List.mem_append.mp hstep with hin | hin
  · rcases call_of_mem hprelude hfed hin with h | h | h | h <;> rw [hcall] at h <;> cases h
    rfl
  · rw [List.mem_singleton.mp hin, hlast] at hcall
    cases hcall

/-- What a runtime has been fed with. -/
theorem feedingSteps_made (hlast : last.call = .finalize) :
    feedingSteps (prelude ++ (begun a s₀ w₀ w₁ w₂ answer ++ fed) ++ [last]) = fed := by
  have hnone : feedingSteps prelude = [] :=
    feedingSteps_eq_nil fun step hstep => (LaunchCall.of_isPreparing (hprelude step hstep)).2.1
  have hends : feedingSteps [last] = [] :=
    feedingSteps_eq_nil (by simp [hlast, LaunchCall.isFeeding])
  have hbegun : feedingSteps (begun a s₀ w₀ w₁ w₂ answer) = [] :=
    feedingSteps_eq_nil (by simp [begun, LaunchCall.isFeeding])
  rw [feedingSteps_append, feedingSteps_append, feedingSteps_append, hnone, hends, hbegun,
    feedingSteps_eq_self hfed, List.append_nil]
  rfl

omit hfed in
/-- What the user hears, he hears while the runtime is fed. -/
theorem notices_made (hlast : last.call = .finalize) :
    notices (prelude ++ (begun a s₀ w₀ w₁ w₂ answer ++ fed) ++ [last]) = notices fed := by
  have hnone : notices prelude = [] :=
    List.filterMap_eq_nil_iff.mpr fun step hstep =>
      (LaunchCall.of_isPreparing (hprelude step hstep)).2.2.2.2
  have hends : notices [last] = [] := by simp [notices, hlast, LaunchCall.notice?]
  rw [notices_append, notices_append, notices_append, hnone, hends, List.append_nil]
  rfl

end Made

/-- A launch that gets to its runtime neither hands over nor extracts. -/
theorem GoesOn.stays [Zlib.Inflater] {a : Archive} {s₀ : LaunchState} {w₀ : World τ}
    {prelude run : List (LaunchStep τ)} (h : GoesOn env a s₀ r s steps w₁ prelude run w₀) :
    ∀ step ∈ steps ++ finishing env s w₁, step.call.isHandover = false ∧
      ∀ name, step.call ≠ .extracting name := by
  obtain ⟨rfl, hcalls, -, -, hruns⟩ := h
  refine List.forall_mem_append.mpr
    ⟨List.forall_mem_append.mpr ⟨fun step hstep => ?_, hruns.stays⟩, ?_⟩
  · exact ⟨(LaunchCall.of_isPreparing (hcalls step hstep).1).1, (hcalls step hstep).2⟩
  · rw [finishing]
    split <;> simp [LaunchCall.isHandover]

/-- A launch that gets to its runtime tells the whole life of it. -/
theorem GoesOn.lifeCycle [Zlib.Inflater] {a : Archive} {s₀ : LaunchState} {w₀ : World τ}
    {prelude run : List (LaunchStep τ)} (h : GoesOn env a s₀ r s steps w₁ prelude run w₀)
    (hready : Ready env setup (initial argv) w a s₀ w₀) :
    LifeCycle env setup argv w r (steps ++ finishing env s w₁) := by
  have hstays := h.stays
  obtain ⟨rfl, hcalls, hvisible, hunmade, hruns⟩ := h
  have hprelude : ∀ step ∈ prelude, step.call.isPreparing = true := fun step hstep =>
    (hcalls step hstep).1
  have hremains : ∀ step ∈ prelude ++ run ++ finishing env s w₁,
      (step.call.isHandover = true ∨ ∃ name, step.call = .extracting name) →
        runtimeCalls (prelude ++ run ++ finishing env s w₁) = [] := by
    rintro step hstep (h | ⟨name, hname⟩)
    · rw [(hstays step hstep).1] at h
      cases h
    · exact absurd hname ((hstays step hstep).2 name)
  have hrun (a' : Archive) (s₀' : LaunchState) (w₀' : World τ)
      (hready' : Ready env setup (initial argv) w a' s₀' w₀') :
      RunsRuntime env a' s₀' w₀' r (prelude ++ run ++ finishing env s w₁) := by
    obtain ⟨rfl, rfl, rfl⟩ := hready.unique hready'
    exact ⟨s, w₁, prelude, run, hruns, rfl, hprelude, hvisible⟩
  have hidle {P : Prop} (h : ∀ a s₀ w₀, ¬Ready env setup (initial argv) w a s₀ w₀) : P :=
    absurd hready (h a s₀ w₀)
  rcases hruns.shape with ⟨e, w', rfl, rfl⟩ | ⟨rfl, w', w'', answer, fed, -, rfl, hfed, hends⟩
  · -- the runtime could not be made
    have hfinish : finishing env s w₁ = [] := by simp [finishing, hunmade]
    have hcall {step : LaunchStep τ} (hstep : step ∈ prelude ++
          [⟨.createRuntime a s.session.home (.error e), w₀, w'⟩] ++ finishing env s w₁) :
        step.call.isPreparing = true ∨ step.call = .createRuntime a s.session.home (.error e) := by
      rw [hfinish, List.append_nil] at hstep
      rcases List.mem_append.mp hstep with hin | hin
      · exact .inl (hprelude step hin)
      · exact .inr (by rw [List.mem_singleton.mp hin])
    refine ⟨hrun, hidle, hremains, fun step hstep hc => ?_,
      fun _ step hstep hc => ?_, fun step hstep _ _ hc => ?_, fun step hstep _ hc => ?_⟩
    · rcases hcall hstep with h | h
      · rw [(LaunchCall.of_isPreparing h).2.2.2.1] at hc
        cases hc
      · rw [h] at hc
        cases hc
    all_goals rcases hcall hstep with h | h <;> rw [hc] at h <;> cases h
  · -- a runtime has been made
    obtain ⟨last, hfinish, hlast⟩ : ∃ last, finishing env { s₀ with hasRuntime := true } w₁ =
        [last] ∧ last.call = .finalize := ⟨_, rfl, rfl⟩
    rw [hfinish] at hremains hrun ⊢
    refine ⟨hrun, hidle, hremains, fun _ _ _ => ?_, fun hnone => ?_,
      fun step hstep settings code hc => ?_,
      fun step hstep settings hc creation hin a' home made hm => ?_⟩
    · refine ⟨_, last, rfl, hlast, fun step hstep hc => ?_⟩
      rcases call_of_mem hprelude hfed hstep with h | h | h | h <;> rw [hc] at h <;> cases h
    · have hmade := hnone ⟨.createRuntime a s₀.session.home (.ok ()), w₀, w'⟩ (by simp [begun])
      cases hmade
    · obtain rfl := answer_of_start hprelude hfed hlast hstep hc
      obtain ⟨rfl, hr⟩ := hends
      exact ⟨hr, notices_made hprelude hlast⟩
    · obtain rfl := answer_of_start hprelude hfed hlast hstep hc
      obtain rfl := archive_of_creation hprelude hfed hlast hin hm
      rw [feedingSteps_made hprelude hfed hlast]
      exact hends

end

/-- **The life cycle of a runtime.**  A launch that is recorded does what it does
otherwise, and the steps that are recorded are a life cycle: whatever is in the container
and in the handshake, and whatever the surroundings answer. -/
theorem launch_lifeCycle [Zlib.Inflater] (env : Surroundings τ) (setup : LaunchSetup)
    (argv : List String) (w : World τ) : ∃ steps,
      (launch env.recorded setup argv).apply (w.recorded []) =
        (((launch env setup argv).apply w).1, ((launch env setup argv).apply w).2.recorded steps) ∧
      LifeCycle env setup argv w ((launch env setup argv).apply w).1 steps := by
  obtain ⟨steps, hrun, s, course, w₁, -, hcourse, rfl⟩ := launch_records env setup argv w
  refine ⟨_, hrun [], ?_⟩
  rcases hcourse.cases rfl with ⟨hstops, hunready⟩ | ⟨a, s₀, prelude, run, w₀, hready, hgoes⟩
  · exact hstops.lifeCycle hunready
  · exact hgoes.lifeCycle hready

/-- A container with two modules, a bundle and three scripts.  The first module and the second
script fail. -/
def rehearsedPacking : Packing :=
  .withDefaultRuntime [
    .plain .script "first" (Text.encode "a = 1"), .plain .module "boot" (Text.encode "raise"),
    .plain .script "second" (Text.encode "raise"), .plain .codeBundle "lib" [80, 75],
    .plain .script "third" [], .plain .package "pkg" []]

/-- The surroundings of a program whose runtime reads lines. -/
def rehearsed : Surroundings RehearsalState :=
  Rehearsal.surroundings
    ⟨⟨"/app"⟩, ⟨false⟩, [], .code 0, .code 0, false, .lines none, none, false⟩ false
    fun _ _ => return .code 0

/-- A world with nothing but the program, which is its container. -/
def rehearsedWorld : World RehearsalState :=
  ⟨⟨[(["app"], .file 0)], [⟨Mode.directory, rehearsedPacking.bytes⟩], [], [], 0, []⟩, .empty,
    default⟩

/-- The general statement for a launch that gets to its runtime.  The failure of a module is
passed over, and no script is run after the one that fails. -/
theorem launch_lifeCycle_rehearsed :
    let setup : LaunchSetup := ⟨.none, ⟨false⟩⟩
    ∃ steps, LifeCycle rehearsed setup ["app"] rehearsedWorld
        (.ok (.exit unhandledErrorExit)) steps ∧
      (∃ a s₀ w₀, Ready rehearsed setup (initial ["app"]) rehearsedWorld a s₀ w₀ ∧
        RunsRuntime rehearsed a s₀ w₀ (.ok (.exit unhandledErrorExit)) steps) ∧
      Feed.all.map (·.called steps) = [["boot", "pkg"], ["/app?15"], ["first", "second"]] ∧
      notices steps = ["second"] := by
  intro setup
  have hresult : ((launch rehearsed setup ["app"]).apply rehearsedWorld).1.toOption =
      some (.exit unhandledErrorExit) := by decide +kernel
  have hopens : ((Locate.openArchive ⟨"/app"⟩).apply rehearsedWorld.files).1.toOption.map
      (·.needsExtraction) = some false := by decide +kernel
  obtain ⟨steps, hrun, hlife⟩ := launch_lifeCycle rehearsed setup ["app"] rehearsedWorld
  have hsteps : stepsOf rehearsed setup ["app"] rehearsedWorld = steps := by
    rw [stepsOf, hrun]
    rfl
  rw [toOption_eq_some.mp hresult] at hlife
  rcases hopen : (Locate.openArchive ⟨"/app"⟩).apply rehearsedWorld.files with ⟨opened, files⟩
  rw [hopen] at hopens
  obtain ⟨a, ha, hneeds⟩ := Option.map_eq_some_iff.mp hopens
  obtain rfl := toOption_eq_some.mp ha
  have hready : Ready rehearsed setup (initial ["app"]) rehearsedWorld a _ _ :=
    ⟨_, _, _, _, .opened rfl hopen, .atHome rfl hneeds, .atOnce rfl rfl rfl⟩
  refine ⟨steps, hlife, ⟨a, _, _, hready, hlife.runs _ _ _ hready⟩, ?_, ?_⟩
  all_goals
    rw [← hsteps]
    decide +kernel

end Launch
end Stowage
