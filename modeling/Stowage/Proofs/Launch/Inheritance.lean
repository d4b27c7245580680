import Stowage.Proofs.Launch.Chain

/-!
# What a payload inherits

A program that a payload starts gets the environment of the launcher.  If there were a
message in it, that program would take itself for a copy of the launcher's, and run from a
directory which is not its own.

Two places clear messages: a process that has been told of a directory does so before it
runs from there, and one that has replaced itself before it makes its runtime.
`no_message_at_start` says that this covers every way to a runtime.  Whatever the
environment of a process has been, there is no message in it when the runtime is started.
-/

namespace Stowage

open Result

namespace Launch

variable {τ : Type} {env : Surroundings τ} {setup : LaunchSetup} {a : Archive}
  {s s' : LaunchState} {w w' : World τ} {r : Except LaunchError LaunchOutcome}
  {steps more : List (LaunchStep τ)}

/-! ## Where a runtime is started -/

/-- Whenever a runtime is started among some steps, that is done in the given world. -/
def StartsIn (w : World τ) (steps : List (LaunchStep τ)) : Prop :=
  ∀ step ∈ starts steps, step.before = w

theorem StartsIn.append (h : StartsIn w steps) (h' : StartsIn w more) :
    StartsIn w (steps ++ more) := by
  rw [StartsIn, starts_append]
  exact List.forall_mem_append.mpr ⟨h, h'⟩

/-- Where no runtime is started, there is nothing to show. -/
theorem startsIn_of_forall (h : ∀ step ∈ steps, step.call.isStart = false) : StartsIn w steps := by
  rw [StartsIn, starts_eq_nil h]
  exact List.forall_mem_nil _

/-- **A runtime is started in the world that its creation has left.** -/
theorem Running.startsIn [Zlib.Inflater] (h : Running env a s w r s' steps w') :
    StartsIn ((env.createRuntime a s.session.home).apply w).2 steps := by
  rcases h.shape with ⟨e, w₁, -, rfl⟩ | ⟨-, w₁, w₂, answer, fed, hbegins, rfl, hfed, -⟩
  · exact startsIn_of_forall (by simp [LaunchCall.isStart])
  · refine StartsIn.append ?_ (startsIn_of_forall fun step hstep =>
      LaunchCall.not_isStart_of_isFeeding (hfed step hstep))
    rw [hbegins.made]
    intro step hstep
    have hstart : step = ⟨.start (settingsOf s) answer, w₁, w₂⟩ := by
      simpa [starts, begun, LaunchCall.isStart] using hstep
    rw [hstart]

end Launch

/-! ## Processes of their own -/

namespace Native

open Launch

/-- **A runtime is made without touching the environment**: loading a library and looking up
what it exports sets no variable. -/
def Host.KeepsEnvironment (host : Host) : Prop :=
  ∀ (a : Archive) (home : Path) (w : World Console),
    ((host.createRuntime a home).apply w).2.env = w.env

/-- No message can be read where some steps start a runtime. -/
def Unheard (steps : List (LaunchStep Console)) : Prop :=
  ∀ step ∈ starts steps, Handshake.fromEnvironment step.before.env = .none

variable {host : Host} {run : Runner} {program : Path} {setup : LaunchSetup} {a : Archive}
  {s s' : LaunchState} {w w' : World Console} {r : Except LaunchError LaunchOutcome}
  {steps more : List (LaunchStep Console)}

theorem Unheard.append (h : Unheard steps) (h' : Unheard more) : Unheard (steps ++ more) := by
  rw [Unheard, starts_append]
  exact List.forall_mem_append.mpr ⟨h, h'⟩

theorem unheard_of_forall (h : ∀ step ∈ steps, step.call.isStart = false) : Unheard steps := by
  rw [Unheard, starts_eq_nil h]
  exact List.forall_mem_nil _

theorem Unheard.cons {step : LaunchStep Console} (hstep : step.call.isStart = false)
    (h : Unheard steps) : Unheard (step :: steps) := by
  have hfirst : Unheard [step] := unheard_of_forall (by simpa using hstep)
  exact hfirst.append h

section

variable [Zlib.Inflater]

/-- A run of the entries that begins without a message starts its runtime without one. -/
theorem unheard_of_running (hhost : host.KeepsEnvironment)
    (h : Running (surroundings host run program) a s w r s' steps w')
    (hw : Handshake.fromEnvironment w.env = .none) : Unheard steps := by
  intro step hstep
  rw [h.startsIn step hstep]
  exact (congrArg Handshake.fromEnvironment (hhost a s.session.home w)).trans hw

/-- **Running in place**, a process that begins without a message, or knows that it has
replaced itself, starts its runtime without a message. -/
theorem unheard_of_inPlace (hhost : host.KeepsEnvironment)
    (h : InPlace (surroundings host run program) setup a s w r s' steps w')
    (hw : setup.handshake.restarted = false → Handshake.fromEnvironment w.env = .none) :
    Unheard steps := by
  cases h with
  | hidden | restarted => exact unheard_of_forall (by simp [LaunchCall.isStart])
  | @ran changed w₁ _ _ _ steps hexpose hfirst _ hruns =>
    refine Unheard.cons rfl (unheard_of_running hhost hruns ?_)
    rw [(exposeHome_eq_ok hexpose).2]
    exact (LibraryPath.fromEnvironment_expose s.session.home w.env).trans (hw hfirst)
  | @ranAgain changed w₁ w₂ _ _ _ steps hexpose _ hclear hruns =>
    refine Unheard.cons rfl (Unheard.cons rfl (unheard_of_running hhost hruns ?_))
    rw [hclear]
    exact Handshake.fromEnvironment_clear w₁.env

omit [Zlib.Inflater] in
/-- A container is opened without touching the environment. -/
theorem env_of_opening (h : Opening (surroundings host run program) s w (.ok a) s' steps w') :
    w'.env = w.env := by
  cases h with
  | opened hfind _ =>
    obtain ⟨-, rfl⟩ := Prod.mk.inj hfind
    rfl

/-- In the course of a launch that has read its message from its environment, a runtime is
started without a message. -/
theorem unheard_of_course (hhost : host.KeepsEnvironment)
    (h : Course (surroundings host run program) setup s w r s' steps w')
    (hs : s.hasRuntime = false) (hsetup : Handshake.fromEnvironment w.env = setup.handshake) :
    Unheard steps := by
  have hopening {result : Except LaunchError Archive} {s₁ : LaunchState}
      {opening : List (LaunchStep Console)} {w₁ : World Console}
      (hopen : Opening (surroundings host run program) s w result s₁ opening w₁) :
      Unheard opening := by
    obtain ⟨-, step, answer, rfl, hcall⟩ := hopen.step
    exact unheard_of_forall (by simp [hcall, LaunchCall.isStart])
  cases h with
  | unopened hopen => exact hopening hopen
  | extracts hopen _ _ hextracts =>
    refine (hopening hopen).append (unheard_of_forall fun step hstep => ?_)
    refine LaunchCall.not_isStart ?_
    rcases (hextracts.stopsShort (hopen.step.1.trans hs)).calls step hstep with hcall | hcall
    · exact (LaunchCall.of_isPreparing hcall).2.2.1
    · exact (LaunchCall.of_isHandover hcall).1
  | @runsExtracted a dir s₁ _ opening rest w₁ w₂ _ _ hopen _ hclear hruns =>
    refine (hopening hopen).append (Unheard.cons rfl ?_)
    refine unheard_of_inPlace hhost hruns fun _ => ?_
    rw [hclear]
    exact Handshake.fromEnvironment_clear w₁.env
  | runs hopen hfirst _ hruns =>
    refine (hopening hopen).append (unheard_of_inPlace hhost hruns fun hmark => ?_)
    rw [env_of_opening hopen, hsetup]
    exact congrArg₂ Handshake.mk hfirst hmark

namespace LauncherProcess

/-- A process is started in the environment that a step has found, as far as messages go:
neither of the two variables that carry them has been changed since. -/
def Inherits (q : LauncherProcess) (step : LaunchStep Console) : Prop :=
  ∀ key ∈ [Handshake.extractDirVariable, Handshake.restartedVariable],
    q.world.env.get? key = step.before.env.get? key

/-- **A payload inherits no message.**  Whatever the environment, the command line and the
container of a process are, and whether it is the first one, the copy that runs from an
extraction directory or a process that has replaced itself: when it starts its runtime, no
message can be read in its environment.  So a packaged program that the payload starts
finds no message either, and begins from scratch. -/
theorem no_message_at_start (p : LauncherProcess) (hhost : p.host.KeepsEnvironment)
    {step : LaunchStep Console} (hstep : step ∈ starts p.steps) :
    Handshake.fromEnvironment step.before.env = .none ∧
      ∀ q : LauncherProcess, q.Inherits step → q.handshake = .none := by
  suffices hnone : Handshake.fromEnvironment step.before.env = .none by
    refine ⟨hnone, fun q hq => ?_⟩
    rw [handshake, ← hnone]
    exact Handshake.fromEnvironment_congr (hq _ (by simp)) (hq _ (by simp))
  revert step
  show Unheard p.steps
  obtain ⟨course, w₂, hcourse, hsteps, -⟩ := p.exists_course
  rw [hsteps]
  refine (unheard_of_course hhost hcourse rfl rfl).append (unheard_of_forall ?_)
  rw [finishing]
  split <;> simp [LaunchCall.isStart]

end LauncherProcess

end

/-- A process that finds both messages: it has been told of a directory, and that it has
replaced itself. -/
def toldProcess : LauncherProcess :=
  ⟨linkedIn, Native.run 2, ⟨"/app"⟩, ["app"], { sampleProcess.world with
    env := ⟨[(Handshake.extractDirVariable, "/tmp"), (Handshake.restartedVariable, "1")]⟩ }⟩

/-- The general statement for a process that finds both messages and starts its runtime. -/
theorem no_message_at_start_toldProcess :
    toldProcess.handshake = ⟨some ⟨"/tmp"⟩, true⟩ ∧
      ∃ step ∈ starts toldProcess.steps, Handshake.fromEnvironment step.before.env = .none := by
  have hhost : toldProcess.host.KeepsEnvironment := fun _ _ _ => rfl
  have hstarts : (starts toldProcess.steps).length = 1 := by decide +kernel
  obtain ⟨step, hstep⟩ := List.length_eq_one_iff.mp hstarts
  have hin : step ∈ starts toldProcess.steps := hstep ▸ List.mem_singleton_self step
  exact ⟨by decide +kernel, step, hin, (toldProcess.no_message_at_start hhost hin).1⟩

end Native
end Stowage
