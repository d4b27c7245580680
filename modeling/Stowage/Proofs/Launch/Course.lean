import Stowage.Proofs.Launch.Feeding

/-!
# The courses of a launch

All that a launch can do is said here once.  For each part of it there is a description,
with one case for every way in which the part can go: what the surroundings are asked, in
what order and in which worlds, what they answer, and how the part ends (`Opening`,
`Extracting`, `Running`, `InPlace`, and `Course` for the whole).  The parts of the program
are proved to go like that, whatever the surroundings do (`body_records`,
`launch_records`).

What holds of all launches is then proved by cases on their course.
-/

namespace Stowage

open Result

variable {τ : Type}

namespace Launch

open Stateful (Records)

/-! ## Opening -/

/-- How the program is found and its container opened. -/
inductive Opening (env : Surroundings τ) (s : LaunchState) (w : World τ) :
    Except LaunchError Archive → LaunchState → List (LaunchStep τ) → World τ → Prop
  | lost {e : LaunchError} {w₁ : World τ}
    (hfind : (env.currentExecutable s.session.argv.head?).apply w = (.error e, w₁)) :
    Opening env s w (.error e) s
      [⟨.currentExecutable s.session.argv.head? (.error e), w, w₁⟩] w₁
  | unopened {executable : Path} {w₁ : World τ} {e : LaunchError} {files : FileSystem}
    (hfind : (env.currentExecutable s.session.argv.head?).apply w = (.ok executable, w₁))
    (hopen : (Locate.openArchive executable).apply w₁.files = (.error e, files)) :
    Opening env s w (.error e) { s with session := { s.session with executable } }
      [⟨.currentExecutable s.session.argv.head? (.ok executable), w, w₁⟩] { w₁ with files }
  | opened {executable : Path} {w₁ : World τ} {a : Archive} {files : FileSystem}
    (hfind : (env.currentExecutable s.session.argv.head?).apply w = (.ok executable, w₁))
    (hopen : (Locate.openArchive executable).apply w₁.files = (.ok a, files)) :
    Opening env s w (.ok a)
      { s with session := { s.session with executable }, options := .parse a.runtimeOptions }
      [⟨.currentExecutable s.session.argv.head? (.ok executable), w, w₁⟩] { w₁ with files }

theorem openArchive_records (env : Surroundings τ) (s : LaunchState) (w : World τ) :
    Records (openArchive env.recorded) (openArchive env) s w (Opening env s w) := by
  refine (records_call (.currentExecutable s.session.argv.head?) _ s w).bind ?_ ?_
  · rintro executable _ _ w₁ ⟨rfl, rfl, hfind⟩
    refine records_setSession ((records_onFiles (Locate.openArchive executable) _ w₁).bind ?_ ?_)
    · rintro a _ _ _ ⟨rfl, rfl, files, hopen, rfl⟩
      exact Stateful.records_modify (Stateful.records_pure (.opened hfind hopen))
    · rintro e _ _ _ ⟨rfl, rfl, files, hopen, rfl⟩
      exact .unopened hfind hopen
  · rintro e _ _ w₁ ⟨rfl, rfl, hfind⟩
    exact .lost hfind

/-- What comes of it, and what is known then. -/
theorem Opening.apply {env : Surroundings τ} {s s' : LaunchState} {w w' : World τ}
    {r : Except LaunchError Archive} {steps : List (LaunchStep τ)}
    (h : Opening env s w r s' steps w') :
    Stateful.apply (openArchive env) s w = ((r, s'), w') := by
  cases h with
  | lost hfind =>
    simp only [openArchive, Stateful.apply_bind, apply_session, apply_lift, hfind, mapError_id]
  | unopened hfind hopen | opened hfind hopen =>
    simp only [openArchive, Stateful.apply_bind, apply_session, apply_lift, apply_setSession,
      apply_onFiles, hfind, hopen, mapError_id]
    try rfl

/-! ## Extracting -/

/-- Steps in which the surroundings only hear of entries. -/
def Heard (steps : List (LaunchStep τ)) : Prop :=
  ∀ step ∈ steps, ∃ name, step.call = .extracting name

section

variable [Zlib.Inflater]

/-- Some entries are extracted, one after the other. -/
inductive Unpacked (a : Archive) (dir : Path) (policy : UnpackPolicy) (resolver : Resolver) :
    FileSystem → FileSystem → Prop
  | none (fs : FileSystem) : Unpacked a dir policy resolver fs fs
  | entry {fs fs' : FileSystem} (r : Record) (pool : Pool)
    (hrest : Unpacked a dir policy resolver
      ((Extraction.extractEntry a dir policy resolver r).apply pool fs).2 fs') :
    Unpacked a dir policy resolver fs fs'

/-- **How a directory is filled**: the surroundings hear of the entries, which are extracted
in between. -/
structure Filling (a : Archive) (dir : Path) (policy : UnpackPolicy) (resolver : Resolver)
    (fs : FileSystem) (steps : List (LaunchStep τ)) (fs' : FileSystem) : Prop where
  heard : Heard steps
  between : Between (Unpacked a dir policy resolver) fs steps fs'

/-- Extracting the entries asks nothing of the surroundings. -/
theorem extractAmong_records (a : Archive) (dir : Path) (policy : UnpackPolicy)
    (resolver : Resolver) (env : Surroundings τ) (count : Nat)
    (entries : List (Except Malformation Record)) (pool : Pool) (w : World τ) :
    Records (Extraction.extractAmong a dir policy resolver env.recorded.extracting count entries)
      (Extraction.extractAmong a dir policy resolver env.extracting count entries) pool w
      fun _ _ steps w' => Filling a dir policy resolver w.files steps w'.files := by
  induction entries generalizing count pool w with
  | nil => exact Stateful.records_pure ⟨by simp [Heard], .none _⟩
  | cons e rest ih =>
    cases e with
    | error m => exact Stateful.records_throw ⟨by simp [Heard], .none _⟩
    | ok r =>
      rw [Extraction.extractAmong, Extraction.extractAmong]
      by_cases hkind : r.kind.isExtractable = true
      · rw [if_pos hkind, if_pos hkind]
        refine (Extraction.records_onWorld (.extracting r.name) _ pool w).bind ?_ ?_
        · rintro _ pool₁ _ w₁ rfl
          refine (Extraction.records_onFiles _ pool₁ w₁).bind ?_ ?_
          · rintro _ pool₂ _ _ ⟨rfl, rfl⟩
            refine (ih (count + 1) pool₂ _).mono fun _ _ more _ hmore => ⟨?_, .none _, ?_⟩
            · exact List.forall_mem_cons.mpr ⟨⟨_, rfl⟩, hmore.heard⟩
            · exact hmore.between.head fun _ => .entry r pool₁
          · rintro _ _ _ _ ⟨rfl, rfl⟩
            exact ⟨by simp [Heard], .none _, .entry r pool₁ (.none _)⟩
        · rintro _ _ _ w₁ rfl
          exact ⟨by simp [Heard], .none _, .none _⟩
      · rw [if_neg hkind, if_neg hkind]
        exact ih count pool w

/-- The directory in which a launch makes its extraction directory. -/
def extractionParent (s : LaunchState) (w : World τ) : Path :=
  Extraction.parentDir w.env s.options.launcher.extractionParent

/-- The resolver of a launch: references are taken from the directory of its program. -/
def resolverOf (s : LaunchState) (setup : LaunchSetup) : Resolver :=
  ⟨s.session.executableDir, setup.policy⟩

/-- How a directory is made and filled.  From the moment when it is there, the launch has to
remove it. -/
inductive Extracted (env : Surroundings τ) (setup : LaunchSetup) (a : Archive)
    (s : LaunchState) (w : World τ) :
    Except LaunchError Path → LaunchState → List (LaunchStep τ) → World τ → Prop
  /-- There is no directory. -/
  | unmade {e : LaunchError} {files : FileSystem}
    (hmake : (Extraction.makeDir (extractionParent s w)).apply w.files = (.error e, files)) :
    Extracted env setup a s w (.error e) s [] { w with files }
  /-- Not all entries can be extracted. -/
  | unfilled {dir : Path} {files : FileSystem} {e : LaunchError} {pool : Pool}
    {heard : List (LaunchStep τ)} {w' : World τ}
    (hmake : (Extraction.makeDir (extractionParent s w)).apply w.files = (.ok dir, files))
    (hextract : Stateful.apply (Extraction.extractAll a dir setup.policy (resolverOf s setup)
      env.extracting) [] { w with files } = ((.error e, pool), w'))
    (hfilling : Filling a dir setup.policy (resolverOf s setup) files heard w'.files) :
    Extracted env setup a s w (.error e) { s with session := s.session.adopt dir } heard w'
  /-- The new directory holds all entries. -/
  | filled {dir : Path} {files : FileSystem} {count : Nat} {pool : Pool}
    {heard : List (LaunchStep τ)} {w' : World τ}
    (hmake : (Extraction.makeDir (extractionParent s w)).apply w.files = (.ok dir, files))
    (hextract : Stateful.apply (Extraction.extractAll a dir setup.policy (resolverOf s setup)
      env.extracting) [] { w with files } = ((.ok count, pool), w'))
    (hfilling : Filling a dir setup.policy (resolverOf s setup) files heard w'.files) :
    Extracted env setup a s w (.ok dir) { s with session := s.session.adopt dir } heard w'

section Extracted
variable {env : Surroundings τ} {setup : LaunchSetup} {a : Archive} {s s' : LaunchState}
  {w w' : World τ} {steps : List (LaunchStep τ)}

/-- A launch that has extracted has taken the directory over. -/
theorem Extracted.state {dir : Path} (h : Extracted env setup a s w (.ok dir) s' steps w') :
    s' = { s with session := s.session.adopt dir } := by
  cases h
  rfl

/-- In the course of an extraction the surroundings only hear of entries. -/
theorem Extracted.heard {r : Except LaunchError Path}
    (h : Extracted env setup a s w r s' steps w') : Heard steps := by
  cases h with
  | unmade => simp [Heard]
  | unfilled _ _ hfilling | filled _ _ hfilling => exact hfilling.heard

end Extracted

theorem extract_records (env : Surroundings τ) (setup : LaunchSetup) (a : Archive)
    (s : LaunchState) (w : World τ) :
    Records (extract env.recorded setup a) (extract env setup a) s w
      (Extracted env setup a s w) := by
  refine Stateful.records_get ?_
  refine Records.bind (R := fun r s' steps w' =>
      r = .ok (extractionParent s w) ∧ s' = s ∧ steps = [] ∧ w' = w)
    (.of_apply (fun _ => rfl) ⟨rfl, rfl, rfl, rfl⟩) ?_ ?_
  · rintro parent s _ w ⟨hparent, rfl, rfl, rfl⟩
    obtain rfl := Except.ok.inj hparent
    refine (records_onFiles (Extraction.makeDir (extractionParent s w)) _ w).bind ?_ ?_
    · rintro dir s _ _ ⟨rfl, rfl, files, hmake, rfl⟩
      refine records_setSession (records_session ?_)
      refine (records_lift id (Extraction.records_released
        (extractAmong_records a dir setup.policy (resolverOf s setup) env 0 a.entries []
          _).and_apply)).bind ?_ ?_
      · rintro count _ steps w' ⟨rfl, result, hresult, pool, hfilling, hextract, -⟩
        obtain rfl := mapError_eq_ok.mp hresult.symm
        refine Stateful.records_pure ?_
        rw [List.append_nil]
        exact .filled hmake hextract hfilling
      · rintro e _ steps w' ⟨rfl, result, hresult, pool, hfilling, hextract, -⟩
        rw [mapError_id] at hresult
        subst hresult
        exact .unfilled hmake hextract hfilling
    · rintro e _ _ _ ⟨rfl, rfl, files, hmake, rfl⟩
      exact .unmade hmake
  · rintro e _ _ _ ⟨h, -⟩
    cases h

/-- How a launch extracts and lets a copy of the program run. -/
inductive Extracting (env : Surroundings τ) (setup : LaunchSetup) (a : Archive)
    (s : LaunchState) (w : World τ) :
    Except LaunchError LaunchOutcome → LaunchState → List (LaunchStep τ) → World τ → Prop
  /-- The entries cannot be extracted. -/
  | failed {e : LaunchError} {s' : LaunchState} {heard : List (LaunchStep τ)} {w₁ : World τ}
    (hextract : Extracted env setup a s w (.error e) s' heard w₁) :
    Extracting env setup a s w (.error e) s' heard w₁
  /-- The new directory cannot be made visible. -/
  | hidden {dir : Path} {e : LaunchError} {heard : List (LaunchStep τ)} {w₁ w₂ : World τ}
    (hextract :
      Extracted env setup a s w (.ok dir) { s with session := s.session.adopt dir } heard w₁)
    (hexpose : (env.exposeHome dir).apply w₁ = (.error e, w₂)) :
    Extracting env setup a s w (.error e)
      { s with session := { s.session.adopt dir with home := dir } }
      (heard ++ [⟨.exposeHome dir (.error e), w₁, w₂⟩]) w₂
  /-- A copy has been asked for, and the launch ends as it does. -/
  | respawned {dir : Path} {changed : Bool} {answer : Except LaunchError ChildExit}
    {heard : List (LaunchStep τ)} {w₁ w₂ w₃ : World τ}
    (hextract :
      Extracted env setup a s w (.ok dir) { s with session := s.session.adopt dir } heard w₁)
    (hexpose : (env.exposeHome dir).apply w₁ = (.ok changed, w₂))
    (hrespawn : (env.respawn { s.session.adopt dir with home := dir } (.forChild dir)
      s.options.launcher.ignoreSignals).apply w₂ = (answer, w₃)) :
    Extracting env setup a s w (answer.map .ofChild)
      { s with session := { s.session.adopt dir with home := dir } }
      (heard ++ [⟨.exposeHome dir (.ok changed), w₁, w₂⟩,
        ⟨.respawn { s.session.adopt dir with home := dir } (.forChild dir)
          s.options.launcher.ignoreSignals answer, w₂, w₃⟩]) w₃

theorem extractAndRespawn_records (env : Surroundings τ) (setup : LaunchSetup) (a : Archive)
    (s : LaunchState) (w : World τ) :
    Records (extractAndRespawn env.recorded setup a) (extractAndRespawn env setup a) s w
      (Extracting env setup a s w) := by
  refine (extract_records env setup a s w).bind ?_ fun _ _ _ _ hextract => .failed hextract
  rintro dir s' heard w₁ hextract
  obtain rfl := hextract.state
  refine records_setSession ((records_call (.exposeHome dir) _ _ w₁).bind ?_ ?_)
  · rintro changed _ _ w₂ ⟨rfl, rfl, hexpose⟩
    refine Stateful.records_get (records_session ?_)
    refine (records_call (.respawn _ (.forChild dir) _) _ _ w₂).bind ?_ ?_
    · rintro ended _ _ w₃ ⟨rfl, rfl, hrespawn⟩
      exact Stateful.records_pure (.respawned hextract hexpose hrespawn)
    · rintro e _ _ w₃ ⟨rfl, rfl, hrespawn⟩
      exact .respawned hextract hexpose hrespawn
  · rintro e _ _ w₂ ⟨rfl, rfl, hexpose⟩
    exact .hidden hextract hexpose

/-! ## Running -/

/-- The settings with which a runtime is started. -/
def settingsOf (s : LaunchState) : StartSettings :=
  .make s.session.executable s.session.home s.session.argv s.options

/-- The steps in which a runtime is made and started. -/
def begun (a : Archive) (s : LaunchState) (w w₁ w₂ : World τ)
    (answer : Except RuntimeError StartOutcome) : List (LaunchStep τ) :=
  [⟨.createRuntime a s.session.home (.ok ()), w, w₁⟩, ⟨.start (settingsOf s) answer, w₁, w₂⟩]

/-- The surroundings make a runtime in this world, and it answers its start. -/
structure Begins (env : Surroundings τ) (a : Archive) (s : LaunchState) (w w₁ w₂ : World τ)
    (answer : Except RuntimeError StartOutcome) : Prop where
  made : (env.createRuntime a s.session.home).apply w = (.ok (), w₁)
  started : (env.runtime.start (settingsOf s)).apply w₁ = (answer, w₂)

/-- **How a runtime is made, started and fed.**  The modules come first, then the bundles,
then the scripts; a pass that fails is the last one. -/
inductive Running (env : Surroundings τ) (a : Archive) (s : LaunchState) (w : World τ) :
    Except LaunchError LaunchOutcome → LaunchState → List (LaunchStep τ) → World τ → Prop
  /-- There is no runtime. -/
  | uncreated {e : LaunchError} {w₁ : World τ}
    (hmade : (env.createRuntime a s.session.home).apply w = (.error e, w₁)) :
    Running env a s w (.error e) s [⟨.createRuntime a s.session.home (.error e), w, w₁⟩] w₁
  /-- The runtime does not start. -/
  | unstarted {e : RuntimeError} {w₁ w₂ : World τ} (hbegins : Begins env a s w w₁ w₂ (.error e)) :
    Running env a s w (.error (.runtime e)) { s with hasRuntime := true }
      (begun a s w w₁ w₂ (.error e)) w₂
  /-- The runtime asks to exit. -/
  | exited {code : Int32} {w₁ w₂ : World τ} (hbegins : Begins env a s w w₁ w₂ (.ok (.exit code))) :
    Running env a s w (.ok (.exit code)) { s with hasRuntime := true }
      (begun a s w w₁ w₂ (.ok (.exit code))) w₂
  /-- A module cannot be read. -/
  | modulesStopped {e : RuntimeError} {w₁ w₂ w₃ : World τ} {ms : List (LaunchStep τ)}
    (hbegins : Begins env a s w w₁ w₂ (.ok .running))
    (hmodules : Fed a .modules w₂ a.entries ms (.error e) w₃) :
    Running env a s w (.error (.runtime e)) { s with hasRuntime := true }
      (begun a s w w₁ w₂ (.ok .running) ++ ms) w₃
  /-- A bundle cannot be added. -/
  | bundlesStopped {e : RuntimeError} {w₁ w₂ w₃ w₄ : World τ} {ms bs : List (LaunchStep τ)}
    (hbegins : Begins env a s w w₁ w₂ (.ok .running))
    (hmodules : Fed a .modules w₂ a.entries ms (.ok ()) w₃)
    (hbundles : Fed a .bundles w₃ a.entries bs (.error e) w₄) :
    Running env a s w (.error (.runtime e)) { s with hasRuntime := true }
      (begun a s w w₁ w₂ (.ok .running) ++ (ms ++ bs)) w₄
  /-- A script cannot be read, or the runtime fails at it in another way than the script. -/
  | scriptsStopped {e : RuntimeError} {w₁ w₂ w₃ w₄ w₅ : World τ}
    {ms bs ss : List (LaunchStep τ)} (hother : ∀ script, e ≠ .scriptFailed script)
    (hbegins : Begins env a s w w₁ w₂ (.ok .running))
    (hmodules : Fed a .modules w₂ a.entries ms (.ok ()) w₃)
    (hbundles : Fed a .bundles w₃ a.entries bs (.ok ()) w₄)
    (hscripts : Fed a .scripts w₄ a.entries ss (.error e) w₅) :
    Running env a s w (.error (.runtime e)) { s with hasRuntime := true }
      (begun a s w w₁ w₂ (.ok .running) ++ (ms ++ bs ++ ss)) w₅
  /-- A script fails, and the surroundings hear of it. -/
  | scriptFailed {script : String} {w₁ w₂ w₃ w₄ w₅ w₆ : World τ} {ms bs ss : List (LaunchStep τ)}
    (hbegins : Begins env a s w w₁ w₂ (.ok .running))
    (hmodules : Fed a .modules w₂ a.entries ms (.ok ()) w₃)
    (hbundles : Fed a .bundles w₃ a.entries bs (.ok ()) w₄)
    (hscripts : Fed a .scripts w₄ a.entries ss (.error (.scriptFailed script)) w₅) :
    Running env a s w (.ok (.exit unhandledErrorExit)) { s with hasRuntime := true }
      (begun a s w w₁ w₂ (.ok .running) ++
        (ms ++ bs ++ ss ++ [⟨.unhandledError script, w₅, w₆⟩])) w₆
  /-- All entries have been run. -/
  | completed {w₁ w₂ w₃ w₄ w₅ : World τ} {ms bs ss : List (LaunchStep τ)}
    (hbegins : Begins env a s w w₁ w₂ (.ok .running))
    (hmodules : Fed a .modules w₂ a.entries ms (.ok ()) w₃)
    (hbundles : Fed a .bundles w₃ a.entries bs (.ok ()) w₄)
    (hscripts : Fed a .scripts w₄ a.entries ss (.ok ()) w₅) :
    Running env a s w (.ok (.exit 0)) { s with hasRuntime := true }
      (begun a s w w₁ w₂ (.ok .running) ++ (ms ++ bs ++ ss)) w₅

/-- The runtime has started, and has been fed with all modules and bundles. -/
def Booted (env : Surroundings τ) (a : Archive) (s : LaunchState) (w : World τ)
    (s' : LaunchState) (steps : List (LaunchStep τ)) (w' : World τ) : Prop :=
  s' = { s with hasRuntime := true } ∧ ∃ w₁ w₂ w₃ ms bs,
    Begins env a s w w₁ w₂ (.ok .running) ∧ Fed a .modules w₂ a.entries ms (.ok ()) w₃ ∧
      Fed a .bundles w₃ a.entries bs (.ok ()) w' ∧
      steps = begun a s w w₁ w₂ (.ok .running) ++ (ms ++ bs)

theorem bootstrap_records (env : Surroundings τ) (a : Archive) (s : LaunchState) (w : World τ) :
    Records (bootstrap env.recorded a) (bootstrap env a) s w fun r s' steps w' =>
      match r with
      | .ok none => Booted env a s w s' steps w'
      | .ok (some code) => Running env a s w (.ok (.exit code)) s' steps w'
      | .error e => Running env a s w (.error e) s' steps w' := by
  refine Stateful.records_get ?_
  refine (records_call (.createRuntime a s.session.home) _ s w).bind ?_ ?_
  · rintro ⟨⟩ s _ w₁ ⟨rfl, rfl, hmade⟩
    refine Stateful.records_modify ?_
    refine (records_lift .runtime (Effect.records_recorded (.start (settingsOf s)) _ w₁)).bind
      ?_ ?_
    · rintro outcome _ _ w₂ ⟨rfl, answer, hanswer, rfl, hstarted⟩
      obtain rfl := mapError_eq_ok.mp hanswer.symm
      cases outcome with
      | exit code => exact Stateful.records_pure (.exited ⟨hmade, hstarted⟩)
      | running =>
        refine (records_lift .runtime
          (a.runModulesAmong_records env.runtime ⟨[], []⟩ a.entries w₂)).bind ?_ ?_
        · rintro report _ ms w₃ ⟨rfl, answer, hanswer, hmodules⟩
          obtain rfl := mapError_eq_ok.mp hanswer.symm
          refine (records_lift .runtime
            (a.addBundlesAmong_records env.runtime 0 a.entries w₃)).bind ?_ ?_
          · rintro count _ bs w₄ ⟨rfl, answer, hanswer, hbundles⟩
            obtain rfl := mapError_eq_ok.mp hanswer.symm
            exact Stateful.records_pure ⟨rfl, w₁, w₂, w₃, ms, bs, ⟨hmade, hstarted⟩, hmodules,
              hbundles, by simp [begun]⟩
          · rintro _ _ bs w₄ ⟨rfl, answer, hanswer, hbundles⟩
            obtain ⟨e, rfl, rfl⟩ := mapError_eq_error.mp hanswer.symm
            have hstopped : Running env a s w (.error (.runtime e)) { s with hasRuntime := true }
                (begun a s w w₁ w₂ (.ok .running) ++ (ms ++ bs)) w₄ :=
              .bundlesStopped ⟨hmade, hstarted⟩ hmodules hbundles
            exact hstopped
        · rintro _ _ ms w₃ ⟨rfl, answer, hanswer, hmodules⟩
          obtain ⟨e, rfl, rfl⟩ := mapError_eq_error.mp hanswer.symm
          exact .modulesStopped ⟨hmade, hstarted⟩ hmodules
    · rintro _ _ _ w₂ ⟨rfl, answer, hanswer, rfl, hstarted⟩
      obtain ⟨e, rfl, rfl⟩ := mapError_eq_error.mp hanswer.symm
      exact .unstarted ⟨hmade, hstarted⟩
  · rintro e _ _ w₁ ⟨rfl, rfl, hmade⟩
    exact .uncreated hmade

/-- **Making, starting and feeding a runtime** goes as described. -/
theorem runEntries_records (env : Surroundings τ) (a : Archive) (s : LaunchState) (w : World τ) :
    Records (runEntries env.recorded a) (runEntries env a) s w (Running env a s w) := by
  refine (bootstrap_records env a s w).bind ?_ fun _ _ _ _ h => h
  rintro (_ | code) s₁ steps w₁ h
  · obtain ⟨rfl, w₁, w₂, w₃, ms, bs, hbegins, hmodules, hbundles, rfl⟩ := h
    refine (records_outcome
      (a.runScriptsAmong_records env.runtime 0 a.entries _)).bind ?_ ?_
    · rintro outcome _ ss w₅ ⟨rfl, answer, hanswer, hscripts⟩
      cases hanswer
      cases outcome with
      | ok count =>
        refine Stateful.records_pure ?_
        rw [List.append_nil, List.append_assoc]
        exact .completed hbegins hmodules hbundles hscripts
      | error e =>
        cases e with
        | scriptFailed script =>
          refine (records_always (.unhandledError script) _ _ w₅).bind ?_ ?_
          · rintro _ _ _ w₆ ⟨-, rfl, rfl, -⟩
            refine Stateful.records_pure ?_
            rw [List.append_nil, List.append_assoc, ← List.append_assoc (ms ++ bs)]
            exact .scriptFailed hbegins hmodules hbundles hscripts
          · rintro _ _ _ _ ⟨h, -⟩
            cases h
        | _ =>
          refine Stateful.records_throw ?_
          rw [List.append_nil, List.append_assoc]
          exact .scriptsStopped nofun hbegins hmodules hbundles hscripts
    · rintro _ _ ss w₅ ⟨rfl, answer, hanswer, -⟩
      cases hanswer
  · exact Stateful.records_pure (by simpa using h)

/-! ## Running in place -/

/-- How a program runs from its home directory. -/
inductive InPlace (env : Surroundings τ) (setup : LaunchSetup) (a : Archive) (s : LaunchState)
    (w : World τ) :
    Except LaunchError LaunchOutcome → LaunchState → List (LaunchStep τ) → World τ → Prop
  /-- The home directory cannot be made visible. -/
  | hidden {e : LaunchError} {w₁ : World τ}
    (hexpose : (env.exposeHome s.session.home).apply w = (.error e, w₁)) :
    InPlace env setup a s w (.error e) s [⟨.exposeHome s.session.home (.error e), w, w₁⟩] w₁
  /-- The process replaces itself, and the launch ends as the replacement does. -/
  | restarted {answer : Except LaunchError ChildExit} {w₁ w₂ : World τ}
    (hexpose : (env.exposeHome s.session.home).apply w = (.ok true, w₁))
    (hfirst : setup.handshake.restarted = false)
    (hasked : s.options.launcher.restartForLibraryPath = true) (hown : s.session.isChild = false)
    (hrestart : (env.restart s.session).apply w₁ = (answer, w₂)) :
    InPlace env setup a s w (answer.map .ofChild) s
      [⟨.exposeHome s.session.home (.ok true), w, w₁⟩, ⟨.restart s.session answer, w₁, w₂⟩] w₂
  /-- The entries are run. -/
  | ran {changed : Bool} {w₁ w' : World τ} {r : Except LaunchError LaunchOutcome}
    {s' : LaunchState} {steps : List (LaunchStep τ)}
    (hexpose : (env.exposeHome s.session.home).apply w = (.ok changed, w₁))
    (hfirst : setup.handshake.restarted = false)
    (hstays : (changed && s.options.launcher.restartForLibraryPath && !s.session.isChild) = false)
    (hruns : Running env a s w₁ r s' steps w')
    (hrecord : Stateful.apply (runEntries env.recorded a) s (w₁.recorded []) =
      ((r, s'), w'.recorded steps)) :
    InPlace env setup a s w r s'
      (⟨.exposeHome s.session.home (.ok changed), w, w₁⟩ :: steps) w'
  /-- The entries are run by a process that has replaced itself. -/
  | ranAgain {changed : Bool} {w₁ w₂ w' : World τ} {r : Except LaunchError LaunchOutcome}
    {s' : LaunchState} {steps : List (LaunchStep τ)}
    (hexpose : (env.exposeHome s.session.home).apply w = (.ok changed, w₁))
    (hagain : setup.handshake.restarted = true) (hclear : w₂ = (env.clearHandshake.apply w₁).2)
    (hruns : Running env a s w₂ r s' steps w')
    (hrecord : Stateful.apply (runEntries env.recorded a) s (w₂.recorded []) =
      ((r, s'), w'.recorded steps)) :
    InPlace env setup a s w r s'
      (⟨.exposeHome s.session.home (.ok changed), w, w₁⟩ :: ⟨.clearHandshake, w₁, w₂⟩ :: steps) w'

theorem runInPlace_records (env : Surroundings τ) (setup : LaunchSetup) (a : Archive)
    (s : LaunchState) (w : World τ) :
    Records (runInPlace env.recorded setup a) (runInPlace env setup a) s w
      (InPlace env setup a s w) := by
  refine Stateful.records_get ((records_call (.exposeHome s.session.home) _ s w).bind ?_ ?_)
  · rintro changed s _ w₁ ⟨rfl, rfl, hexpose⟩
    by_cases hagain : setup.handshake.restarted = true
    · rw [if_pos hagain, if_pos hagain]
      refine (records_always .clearHandshake _ s w₁).bind ?_ ?_
      · rintro _ s _ w₂ ⟨-, rfl, rfl, hclear⟩
        exact (runEntries_records env a s w₂).and_apply.mono fun _ _ _ _ h =>
          .ranAgain hexpose hagain hclear h.1 h.2.2
      · rintro _ _ _ _ ⟨h, -⟩
        cases h
    · rw [if_neg hagain, if_neg hagain]
      rw [Bool.not_eq_true] at hagain
      by_cases hstays :
          (changed && s.options.launcher.restartForLibraryPath && !s.session.isChild) = true
      · rw [if_pos hstays, if_pos hstays]
        simp only [Bool.and_eq_true, Bool.not_eq_true'] at hstays
        obtain ⟨⟨rfl, hasked⟩, hown⟩ := hstays
        refine (records_call (.restart s.session) _ s w₁).bind ?_ ?_
        · rintro ended s _ w₂ ⟨rfl, rfl, hrestart⟩
          exact Stateful.records_pure (.restarted hexpose hagain hasked hown hrestart)
        · rintro e s _ w₂ ⟨rfl, rfl, hrestart⟩
          exact .restarted hexpose hagain hasked hown hrestart
      · rw [if_neg hstays, if_neg hstays]
        rw [Bool.not_eq_true] at hstays
        exact (runEntries_records env a s w₁).and_apply.mono fun _ _ _ _ h =>
          .ran hexpose hagain hstays h.1 h.2.2
  · rintro e s _ w₁ ⟨rfl, rfl, hexpose⟩
    exact .hidden hexpose

/-! ## The whole launch -/

/-- **What a launch can do**, up to its outcome. -/
inductive Course (env : Surroundings τ) (setup : LaunchSetup) (s : LaunchState) (w : World τ) :
    Except LaunchError LaunchOutcome → LaunchState → List (LaunchStep τ) → World τ → Prop
  /-- There is no container. -/
  | unopened {e : LaunchError} {s₁ : LaunchState} {opening : List (LaunchStep τ)} {w₁ : World τ}
    (hopen : Opening env s w (.error e) s₁ opening w₁) :
    Course env setup s w (.error e) s₁ opening w₁
  /-- The entries are extracted for a copy of the program. -/
  | extracts {a : Archive} {s₁ s' : LaunchState} {opening steps : List (LaunchStep τ)}
    {w₁ w' : World τ} {r : Except LaunchError LaunchOutcome}
    (hopen : Opening env s w (.ok a) s₁ opening w₁) (hfirst : setup.handshake.extractDir = none)
    (hneeds : a.needsExtraction = true) (hextracts : Extracting env setup a s₁ w₁ r s' steps w') :
    Course env setup s w r s' (opening ++ steps) w'
  /-- The entries have been extracted by an earlier process. -/
  | runsExtracted {a : Archive} {dir : Path} {s₁ s' : LaunchState}
    {opening steps : List (LaunchStep τ)} {w₁ w₂ w' : World τ}
    {r : Except LaunchError LaunchOutcome} (hopen : Opening env s w (.ok a) s₁ opening w₁)
    (hextracted : setup.handshake.extractDir = some dir)
    (hclear : w₂ = (env.clearHandshake.apply w₁).2)
    (hruns : InPlace env setup a
      { s₁ with session := { s₁.session with isChild := true, home := dir } } w₂ r s' steps w') :
    Course env setup s w r s' (opening ++ ⟨.clearHandshake, w₁, w₂⟩ :: steps) w'
  /-- Nothing has to be extracted. -/
  | runs {a : Archive} {s₁ s' : LaunchState} {opening steps : List (LaunchStep τ)}
    {w₁ w' : World τ} {r : Except LaunchError LaunchOutcome}
    (hopen : Opening env s w (.ok a) s₁ opening w₁) (hfirst : setup.handshake.extractDir = none)
    (hneeds : a.needsExtraction = false)
    (hruns : InPlace env setup a
      { s₁ with session := { s₁.session with home := inPlaceHome s₁.session s₁.options } } w₁
      r s' steps w') :
    Course env setup s w r s' (opening ++ steps) w'

/-- **Every launch has a course.** -/
theorem body_records (env : Surroundings τ) (setup : LaunchSetup) (s : LaunchState)
    (w : World τ) :
    Records (body env.recorded setup) (body env setup) s w (Course env setup s w) := by
  refine (openArchive_records env s w).bind ?_ fun _ _ _ _ h => .unopened h
  intro a s₁ opening w₁ hopen
  cases hdir : setup.handshake.extractDir with
  | some dir =>
    refine records_setSession ((records_always .clearHandshake _ _ w₁).bind ?_ ?_)
    · rintro _ _ _ w₂ ⟨-, rfl, rfl, hclear⟩
      exact (runInPlace_records env setup a _ w₂).mono fun _ _ _ _ h =>
        .runsExtracted hopen hdir hclear h
    · rintro _ _ _ _ ⟨h, -⟩
      cases h
  | none =>
    by_cases hneeds : a.needsExtraction = true
    · rw [if_pos hneeds, if_pos hneeds]
      exact (extractAndRespawn_records env setup a s₁ w₁).mono fun _ _ _ _ h =>
        .extracts hopen hdir hneeds h
    · rw [if_neg hneeds, if_neg hneeds]
      rw [Bool.not_eq_true] at hneeds
      refine Stateful.records_get (records_setSession ?_)
      exact (runInPlace_records env setup a _ w₁).mono fun _ _ _ _ h => .runs hopen hdir hneeds h

/-- A run of a runtime leaves the session as it is. -/
theorem Running.session {env : Surroundings τ} {a : Archive} {s s' : LaunchState}
    {w w' : World τ} {r : Except LaunchError LaunchOutcome} {steps : List (LaunchStep τ)}
    (h : Running env a s w r s' steps w') : s'.session = s.session := by
  cases h <;> rfl

/-- So does running in place. -/
theorem InPlace.session {env : Surroundings τ} {setup : LaunchSetup} {a : Archive}
    {s s' : LaunchState} {w w' : World τ} {r : Except LaunchError LaunchOutcome}
    {steps : List (LaunchStep τ)} (h : InPlace env setup a s w r s' steps w') :
    s'.session = s.session := by
  cases h with
  | hidden | restarted => rfl
  | ran _ _ _ hruns | ranAgain _ _ _ hruns => exact hruns.session

end

/-- The steps in which a launch finishes: the runtime, if there is one, is finalized. -/
def finishing (env : Surroundings τ) (s : LaunchState) (w : World τ) : List (LaunchStep τ) :=
  if s.hasRuntime then [⟨.finalize, w, (env.runtime.finalize.apply w).2⟩] else []

theorem finish_records (env : Surroundings τ) (s : LaunchState) (w : World τ) :
    Effect.Records (finish env.recorded s) (finish env s) w fun _ steps _ =>
      steps = finishing env s w := by
  have hclean (w : World τ) : Effect.Records
      (do let _ ← (Effect.onFiles id s.session.cleanUp : Effect (Recorded τ) Empty _))
      (do let _ ← Effect.onFiles id s.session.cleanUp) w fun _ steps _ => steps = [] := by
    refine (Effect.records_onFiles (R := fun _ steps _ => steps = []) rfl).bind ?_ fun _ _ _ h => h
    rintro _ _ w₁ rfl
    exact Effect.records_pure rfl
  rw [finish, finish]
  by_cases hruntime : s.hasRuntime = true
  · simp only [hruntime, if_true]
    refine (Effect.records_recorded (fun _ => .finalize) env.runtime.finalize w).bind ?_ nofun
    rintro _ _ w₁ ⟨rfl, hrun⟩
    refine (hclean w₁).mono fun _ _ _ h => ?_
    rw [h, finishing, if_pos hruntime, hrun]
    rfl
  · simp only [hruntime]
    refine (hclean w).mono fun _ _ _ h => ?_
    rw [h, finishing, if_neg hruntime]

/-- The world once the runtime, if there is one, is finalized. -/
def finalized (env : Surroundings τ) (s : LaunchState) (w : World τ) : World τ :=
  if s.hasRuntime then (env.runtime.finalize.apply w).2 else w

/-- Once the runtime is finalized, all that is left to do is to clean up. -/
theorem finish_apply (env : Surroundings τ) (s : LaunchState) (w : World τ) :
    ((finish env s).apply w).2 = { finalized env s w with
      files := (s.session.cleanUp.apply (finalized env s w).files).2 } := by
  have hclean (w : World τ) : (Effect.apply (do
      let _ ← (Effect.onFiles id s.session.cleanUp : Effect τ Empty LaunchSession)) w).2 =
        { w with files := (s.session.cleanUp.apply w.files).2 } := by
    rw [Effect.apply_bind, Effect.apply_onFiles]
    cases (s.session.cleanUp.apply w.files).1 <;> rfl
  rw [finish, finalized]
  by_cases hruntime : s.hasRuntime = true
  · simp only [hruntime, if_true]
    rw [Effect.apply_bind, Effect.apply_always env.runtime.finalize]
    exact hclean _
  · simp only [hruntime]
    exact hclean w

variable [Zlib.Inflater]

theorem launch_apply (env : Surroundings τ) (setup : LaunchSetup) (argv : List String)
    (w : World τ) {r : Except LaunchError LaunchOutcome} {s : LaunchState} {w₁ : World τ}
    (hbody : Stateful.apply (body env setup) (initial argv) w = ((r, s), w₁)) :
    (launch env setup argv).apply w = (r, ((finish env s).apply w₁).2) := by
  have hrun : body env setup (initial argv) w = ((r, s), w₁) := hbody
  show ((body env setup (initial argv) w).1.1,
    ((finish env (body env setup (initial argv) w).1.2).apply
      (body env setup (initial argv) w).2).2) = _
  rw [hrun]

/-- **A recorded launch** has the result of the plain one and leaves the same world.  What
it records is its course up to the outcome, and the finalization of the runtime. -/
theorem launch_records (env : Surroundings τ) (setup : LaunchSetup) (argv : List String)
    (w : World τ) :
    Effect.Records (launch env.recorded setup argv) (launch env setup argv) w fun r steps _ =>
      ∃ s course w₁, Stateful.apply (body env setup) (initial argv) w = ((r, s), w₁) ∧
        Course env setup (initial argv) w r s course w₁ ∧ steps = course ++ finishing env s w₁ := by
  obtain ⟨course, hrun, hcourse⟩ := body_records env setup (initial argv) w
  rcases hbody : Stateful.apply (body env setup) (initial argv) w with ⟨⟨r, s⟩, w₁⟩
  simp only [hbody] at hrun hcourse
  obtain ⟨last, hfinish, rfl⟩ := finish_records env s w₁
  refine ⟨course ++ finishing env s w₁, fun done => ?_, s, course, w₁, ?_⟩
  · rw [launch_apply _ _ _ _ (hrun done), launch_apply _ _ _ _ hbody, hfinish, List.append_assoc]
  · rw [launch_apply _ _ _ _ hbody]
    exact ⟨rfl, hcourse, rfl⟩

/-- The steps of a launch, as they are recorded. -/
def stepsOf (env : Surroundings τ) (setup : LaunchSetup) (argv : List String) (w : World τ) :
    List (LaunchStep τ) :=
  ((launch env.recorded setup argv).apply (w.recorded [])).2.rest.steps

/-- **The steps of a launch** are those of its course, and the finalization of the runtime. -/
theorem exists_course (env : Surroundings τ) (setup : LaunchSetup) (argv : List String)
    (w : World τ) : ∃ r s course w₁,
      Stateful.apply (body env setup) (initial argv) w = ((r, s), w₁) ∧
        Course env setup (initial argv) w r s course w₁ ∧
        stepsOf env setup argv w = course ++ finishing env s w₁ ∧
        (launch env setup argv).apply w = (r, ((finish env s).apply w₁).2) := by
  obtain ⟨steps, hrun, s, course, w₁, hbody, hcourse, rfl⟩ := launch_records env setup argv w
  refine ⟨_, s, course, w₁, hbody, hcourse, ?_, launch_apply env setup argv w hbody⟩
  rw [stepsOf, hrun]
  rfl

end Launch
end Stowage
